import Mqvpn.Reorder.Wire

/-!
# Messages of the routing socket

`route_mon.c` follows the interfaces of macOS through a routing socket. A read brings a buffer
of messages, one behind another, each with its length in front; and a message ends with socket
addresses, one for every bit of a mask. Both are walked here with reads that are checked against
what was received.

The walk ends on every buffer. It goes on only as long as there are 92 bytes left, the length of
the longest header, so it misses an address message near the end of a buffer; and the name of an
interface is looked for in a socket address that may be shorter than what is read of it. All of
a buffer is seen, and nothing else, if neither happens (`seen_iff`).

The layout of the headers is that of macOS. What the handlers do with a message beyond reading
it is not part of this.
-/

namespace Mqvpn.RouteMon

open Reorder

/-! ## Layout -/

/-- `sizeof(struct rt_msghdr)` -/
def rtMsghdrLen : Nat := 92

/-- `sizeof(struct ifa_msghdr)` -/
def ifaMsghdrLen : Nat := 20

/-- `RTM_VERSION` -/
def rtmVersion : UInt8 := 5

/-- `RTM_NEWADDR` -/
def rtmNewaddr : UInt8 := 0xc

/-- `RTM_DELADDR` -/
def rtmDeladdr : UInt8 := 0xd

/-- `RTM_IFINFO` -/
def rtmIfinfo : UInt8 := 0xe

/-- `RTAX_IFP` -/
def rtaxIfp : Nat := 4

/-- `RTAX_IFA` -/
def rtaxIfa : Nat := 5

/-- `RTAX_MAX` -/
def rtaxMax : Nat := 8

/-- `AF_LINK` -/
def afLink : UInt8 := 18

/-- `offsetof(struct sockaddr_dl, sdl_data)` -/
def sdlData : Nat := 8

/-- `IFNAMSIZ` -/
def ifNamSiz : Nat := 16

/-! ## Reads -/

/-- A 16-bit number; nothing if it is not within what was received. -/
def read16 (buf : Bytes) (i : Nat) : Option Nat := do
  let b₀ ← buf[i]?
  let b₁ ← buf[i + 1]?
  return b₀.toNat + b₁.toNat * 256

/-- A 32-bit number. -/
def read32 (buf : Bytes) (i : Nat) : Option Nat := do
  let lo ← read16 buf i
  let hi ← read16 buf (i + 2)
  return lo + hi * 65536

/-- `ROUTE_SA_ROUNDUP` -/
def routeSaRoundup (a : Nat) : Nat := if 0 < a then 1 + ((a - 1) ||| 3) else 4

/-- The loop of `route_msg_get_addr`, with `left` indices to go, from the index `i`. -/
def getAddrLoop (buf : Bytes) (fin mask want : Nat) : (left i cp : Nat) → Option (Option Nat)
  | 0, _, _ => some none
  | left + 1, i, cp =>
    if fin ≤ cp then some none
    else if mask.testBit i = false then getAddrLoop buf fin mask want left (i + 1) cp
    else if fin - cp < 2 then some none
    else
      match buf[cp]? with
      | none => none
      | some saLen =>
        if i = want then some (if saLen.toNat ≤ fin - cp then some cp else none)
        else getAddrLoop buf fin mask want left (i + 1) (cp + routeSaRoundup saLen.toNat)

/-- `route_msg_get_addr`: where the address is, if it is there. Nothing at all if a read leaves
    what was received; so for all that follows. -/
def routeMsgGetAddr (buf : Bytes) (addrs fin mask want : Nat) : Option (Option Nat) :=
  getAddrLoop buf fin mask want rtaxMax 0 addrs

/-- `route_msg_get_ifp` -/
def routeMsgGetIfp (buf : Bytes) (addrs fin mask : Nat) : Option (Option Nat) := do
  match ← routeMsgGetAddr buf addrs fin mask rtaxIfp with
  | none => return none
  | some sa =>
    let saFamily ← buf[sa + 1]?
    return if saFamily = afLink then some sa else none

/-- `route_resolve_ifname`, as far as it reads the message: the name in the address, if there is
    one. -/
def routeResolveIfname (buf : Bytes) (sdl : Option Nat) : Option (Option Bytes) :=
  match sdl with
  | none => some none
  | some sdl => do
    let sdlNlen ← buf[sdl + 5]?
    if sdlNlen = 0 then return none
    let sdlLen ← buf[sdl]?
    if sdlLen.toNat < sdlData then return none
    let n := min (min sdlNlen.toNat (sdlLen.toNat - sdlData)) (ifNamSiz - 1)
    if n = 0 then return none
    if buf.length < sdl + sdlData + n then none
    else return some ((buf.drop (sdl + sdlData)).take n)

/-- `handle_rtm_newaddr`, for the message at `cp` that ends at `fin` -/
def handleRtmNewaddr (buf : Bytes) (cp fin : Nat) : Option (Option Bytes) := do
  let ifamAddrs ← read32 buf (cp + 4)
  let sdl ← routeMsgGetIfp buf (cp + ifaMsghdrLen) fin ifamAddrs
  let _ifamIndex ← read16 buf (cp + 12)
  routeResolveIfname buf sdl

/-- `handle_rtm_deladdr`; `family` is that of the server's address. -/
def handleRtmDeladdr (family : UInt8) (buf : Bytes) (cp fin : Nat) : Option (Option Bytes) := do
  let ifamAddrs ← read32 buf (cp + 4)
  match ← routeMsgGetAddr buf (cp + ifaMsghdrLen) fin ifamAddrs rtaxIfa with
  | none => return none
  | some ifaSa =>
    let saFamily ← buf[ifaSa + 1]?
    if saFamily ≠ family then return none
    let sdl ← routeMsgGetIfp buf (cp + ifaMsghdrLen) fin ifamAddrs
    let _ifamIndex ← read16 buf (cp + 12)
    routeResolveIfname buf sdl

/-- `handle_rtm_ifinfo`; `ifMsghdrLen` is `sizeof(struct if_msghdr)`. -/
def handleRtmIfinfo (ifMsghdrLen : Nat) (buf : Bytes) (cp fin : Nat) : Option (Option Bytes) := do
  let ifmAddrs ← read32 buf (cp + 4)
  let sdl ← routeMsgGetIfp buf (cp + ifMsghdrLen) fin ifmAddrs
  let _ifmIndex ← read16 buf (cp + 12)
  let _ifmFlags ← read32 buf (cp + 8)
  routeResolveIfname buf sdl

/-! ## The walk -/

/-- A call of a handler: the type of the message, where it is, and its length. -/
structure Dispatch where
  type : UInt8
  cp : Nat
  msglen : Nat
  deriving DecidableEq

/-- How the walk goes: it ends with the calls it made; or it reads beyond what was received; or it
    is not done. -/
inductive Walk
  | ended (calls : List Dispatch)
  | overread
  | unfinished
  deriving DecidableEq

/-- The walk, with a call before it. -/
def Walk.after (calls : List Dispatch) : Walk → Walk
  | ended later => ended (calls ++ later)
  | overread => overread
  | unfinished => unfinished

variable (ifMsghdrLen : Nat) (family : UInt8)

/-- The `switch` of `on_route_event`: the call that is made, if there is one. -/
def dispatch (buf : Bytes) (cp msglen : Nat) (type : UInt8) : Option (List Dispatch) :=
  if type = rtmNewaddr then
    if msglen < ifaMsghdrLen then some []
    else (handleRtmNewaddr buf cp (cp + msglen)).map fun _ => [⟨type, cp, msglen⟩]
  else if type = rtmDeladdr then
    if msglen < ifaMsghdrLen then some []
    else (handleRtmDeladdr family buf cp (cp + msglen)).map fun _ => [⟨type, cp, msglen⟩]
  else if type = rtmIfinfo then
    if msglen < ifMsghdrLen then some []
    else (handleRtmIfinfo ifMsghdrLen buf cp (cp + msglen)).map fun _ => [⟨type, cp, msglen⟩]
  else some []

/-- The inner loop of `on_route_event` -/
def walkLoop (buf : Bytes) : (fuel cp : Nat) → Walk
  | fuel, cp =>
    if buf.length ≤ cp then .ended []
    else
      match fuel with
      | 0 => .unfinished
      | fuel + 1 =>
        if buf.length - cp < rtMsghdrLen then .ended []
        else
          match read16 buf cp, buf[cp + 2]?, buf[cp + 3]? with
          | some msglen, some version, some type =>
            if msglen = 0 then .ended []
            else if buf.length < cp + msglen then .ended []
            else if version ≠ rtmVersion then walkLoop buf fuel (cp + msglen)
            else
              match dispatch ifMsghdrLen family buf cp msglen type with
              | none => .overread
              | some calls => (walkLoop buf fuel (cp + msglen)).after calls
          | _, _, _ => .overread

/-- `on_route_event`, for what one `recv` brings. -/
def onRouteEvent (buf : Bytes) : Walk := walkLoop ifMsghdrLen family buf buf.length 0

/-! ## Addresses -/

section Addresses

variable {buf : Bytes} {addrs fin mask want : Nat}

/-- Where the address of an index is, if it is there: behind those of the indices before it. -/
def saPos (buf : Bytes) (addrs mask : Nat) : Nat → Nat
  | 0 => addrs
  | i + 1 =>
    if mask.testBit i then saPos buf addrs mask i + routeSaRoundup (byteAt buf (saPos buf addrs mask i))
    else saPos buf addrs mask i

/-- The address of an index is there as a whole. -/
structure HasAddr (buf : Bytes) (addrs fin mask want : Nat) : Prop where
  bit : mask.testBit want = true
  room : saPos buf addrs mask want + 2 ≤ fin
  whole : saPos buf addrs mask want + byteAt buf (saPos buf addrs mask want) ≤ fin

instance (buf : Bytes) (addrs fin mask want : Nat) : Decidable (HasAddr buf addrs fin mask want) :=
  decidable_of_iff (mask.testBit want = true ∧ saPos buf addrs mask want + 2 ≤ fin ∧
    saPos buf addrs mask want + byteAt buf (saPos buf addrs mask want) ≤ fin)
    ⟨fun ⟨hbit, hroom, hwhole⟩ => ⟨hbit, hroom, hwhole⟩, fun h => ⟨h.bit, h.room, h.whole⟩⟩

theorem le_routeSaRoundup (a : Nat) : a ≤ routeSaRoundup a := by
  rw [routeSaRoundup]
  split_ifs with ha
  · have hor : a - 1 ≤ (a - 1) ||| 3 := Nat.left_le_or
    omega
  · omega

theorem saPos_succ_le (i : Nat) : saPos buf addrs mask i ≤ saPos buf addrs mask (i + 1) := by
  rw [saPos]
  split_ifs
  · exact Nat.le_add_right _ _
  · exact Nat.le_refl _

theorem saPos_mono {i j : Nat} (h : i ≤ j) : saPos buf addrs mask i ≤ saPos buf addrs mask j := by
  induction h with
  | refl => exact Nat.le_refl _
  | step _ ih => exact ih.trans (saPos_succ_le _)

theorem getElem?_eq_byteAt {i : Nat} (h : i < buf.length) : ∃ b, buf[i]? = some b ∧ b.toNat = byteAt buf i := by
  refine ⟨buf[i], List.getElem?_eq_getElem h, ?_⟩
  rw [byteAt, List.getD_eq_getElem _ _ h]

/-- Behind the wanted index, nothing is found. -/
theorem getAddrLoop_past (hfin : fin ≤ buf.length) (left i cp : Nat) (h : want < i) :
    getAddrLoop buf fin mask want left i cp = some none := by
  induction left generalizing i cp with
  | zero => rfl
  | succ left ih =>
    rw [getAddrLoop]
    split_ifs with hend hbit hshort heq
    · rfl
    · exact ih (i + 1) cp (Nat.lt_succ_of_lt h)
    · rfl
    · exact absurd heq (Nat.ne_of_gt h)
    · obtain ⟨b, hb, -⟩ := getElem?_eq_byteAt (show cp < buf.length by omega)
      rw [hb]
      exact ih (i + 1) _ (Nat.lt_succ_of_lt h)

theorem getAddrLoop_eq (hfin : fin ≤ buf.length) (left i : Nat) (hi : i ≤ want) (hwant : want < i + left) :
    getAddrLoop buf fin mask want left i (saPos buf addrs mask i) =
      some (if HasAddr buf addrs fin mask want then some (saPos buf addrs mask want) else none) := by
  induction left generalizing i with
  | zero => omega
  | succ left ih =>
    have hmono : saPos buf addrs mask i ≤ saPos buf addrs mask want := saPos_mono hi
    rw [getAddrLoop]
    by_cases hend : fin ≤ saPos buf addrs mask i
    · rw [if_pos hend, if_neg fun h : HasAddr buf addrs fin mask want => by have := h.room; omega]
    rw [if_neg hend]
    by_cases hbit : mask.testBit i = false
    · rw [if_pos hbit]
      by_cases heq : i = want
      · subst heq
        rw [getAddrLoop_past hfin _ _ _ (Nat.lt_succ_self i),
          if_neg fun h : HasAddr buf addrs fin mask i => Bool.false_ne_true (hbit.symm.trans h.bit)]
      · have hnext : saPos buf addrs mask (i + 1) = saPos buf addrs mask i := by
          rw [saPos, if_neg (by rw [hbit]; exact Bool.false_ne_true)]
        rw [← hnext]
        exact ih (i + 1) (by omega) (by omega)
    rw [if_neg hbit]
    by_cases hshort : fin - saPos buf addrs mask i < 2
    · rw [if_pos hshort, if_neg fun h : HasAddr buf addrs fin mask want => by have := h.room; omega]
    rw [if_neg hshort]
    obtain ⟨b, hb, hbyte⟩ := getElem?_eq_byteAt (show saPos buf addrs mask i < buf.length by omega)
    rw [hb]
    dsimp only
    by_cases heq : i = want
    · subst heq
      rw [if_pos rfl, hbyte]
      refine congrArg some (if_congr ⟨fun hle => ⟨by simpa using hbit, by omega, by omega⟩, fun h => ?_⟩ rfl rfl)
      have := h.whole
      omega
    · have hnext : saPos buf addrs mask (i + 1) = saPos buf addrs mask i + routeSaRoundup b.toNat := by
        rw [saPos, if_pos (by simpa using hbit), hbyte]
      rw [if_neg heq, ← hnext]
      exact ih (i + 1) (by omega) (by omega)

theorem routeMsgGetAddr_eq (hfin : fin ≤ buf.length) (hwant : want < rtaxMax) :
    routeMsgGetAddr buf addrs fin mask want =
      some (if HasAddr buf addrs fin mask want then some (saPos buf addrs mask want) else none) :=
  getAddrLoop_eq hfin rtaxMax 0 (Nat.zero_le _) (by rwa [Nat.zero_add])

end Addresses

/-! ## What is read of a message -/

section Handlers

variable {buf : Bytes} {addrs fin mask cp : Nat} {n : Nat} {family : UInt8}

theorem isSome_read16 {i : Nat} (h : i + 2 ≤ buf.length) : (read16 buf i).isSome = true := by
  obtain ⟨b₀, h₀, -⟩ := getElem?_eq_byteAt (show i < buf.length by omega)
  obtain ⟨b₁, h₁, -⟩ := getElem?_eq_byteAt (show i + 1 < buf.length by omega)
  rw [read16, h₀, h₁]
  rfl

theorem isSome_read32 {i : Nat} (h : i + 4 ≤ buf.length) : (read32 buf i).isSome = true := by
  obtain ⟨lo, hlo⟩ := Option.isSome_iff_exists.1 (isSome_read16 (show i + 2 ≤ buf.length by omega))
  obtain ⟨hi, hhi⟩ := Option.isSome_iff_exists.1 (isSome_read16 (show i + 2 + 2 ≤ buf.length by omega))
  rw [read32, hlo, hhi]
  rfl

/-- The mask of the message at `cp`. -/
def maskAt (buf : Bytes) (cp : Nat) : Nat := (read32 buf (cp + 4)).getD 0

theorem read32_eq_maskAt (h : cp + 8 ≤ buf.length) : read32 buf (cp + 4) = some (maskAt buf cp) := by
  obtain ⟨mask, hmask⟩ := Option.isSome_iff_exists.1 (isSome_read32 (show cp + 4 + 4 ≤ buf.length by omega))
  rw [maskAt, hmask]
  rfl

/-- There is an address of an interface, and it is a link-layer address. -/
def HasLink (buf : Bytes) (addrs fin mask : Nat) : Prop :=
  HasAddr buf addrs fin mask rtaxIfp ∧ buf[saPos buf addrs mask rtaxIfp + 1]? = some afLink

instance (buf : Bytes) (addrs fin mask : Nat) : Decidable (HasLink buf addrs fin mask) :=
  inferInstanceAs (Decidable (_ ∧ _))

/-- What is received ends within the first 6 bytes of the address of the interface. -/
def ShortLink (buf : Bytes) (addrs fin mask : Nat) : Prop :=
  HasLink buf addrs fin mask ∧ buf.length ≤ saPos buf addrs mask rtaxIfp + 5

theorem routeMsgGetIfp_eq (hfin : fin ≤ buf.length) : routeMsgGetIfp buf addrs fin mask =
    some (if HasLink buf addrs fin mask then some (saPos buf addrs mask rtaxIfp) else none) := by
  rw [routeMsgGetIfp, routeMsgGetAddr_eq hfin (by decide), Option.bind_eq_bind, Option.bind_some]
  by_cases haddr : HasAddr buf addrs fin mask rtaxIfp
  · have hroom := haddr.room
    obtain ⟨b, hb, -⟩ := getElem?_eq_byteAt (show saPos buf addrs mask rtaxIfp + 1 < buf.length by omega)
    rw [if_pos haddr]
    dsimp only
    rw [hb, Option.bind_eq_bind, Option.bind_some]
    refine congrArg some (if_congr ⟨fun hlink => ⟨haddr, hlink ▸ hb⟩, fun hlink => ?_⟩ rfl rfl)
    exact Option.some.inj (hb.symm.trans hlink.2)
  · rw [if_neg haddr, if_neg fun hlink : HasLink buf addrs fin mask => haddr hlink.1]
    rfl

/-- Only the length of the name is looked for beyond the family: the name itself is within the
    address. -/
theorem routeResolveIfname_eq_none_iff {o : Nat} (hwhole : o + byteAt buf o ≤ fin)
    (hfin : fin ≤ buf.length) : routeResolveIfname buf (some o) = none ↔ buf.length ≤ o + 5 := by
  rw [routeResolveIfname]
  by_cases hshort : buf.length ≤ o + 5
  · rw [List.getElem?_eq_none hshort]
    exact iff_of_true rfl hshort
  · obtain ⟨nlen, hnlen, -⟩ := getElem?_eq_byteAt (show o + 5 < buf.length by omega)
    obtain ⟨len, hlen, hbyte⟩ := getElem?_eq_byteAt (show o < buf.length by omega)
    refine iff_of_false ?_ hshort
    rw [hnlen, hlen]
    simp only [Option.bind_eq_bind, Option.bind_some]
    split_ifs with hzero height hnone hbeyond
    · exact not_false
    · exact not_false
    · exact not_false
    · -- the name is cut to the length of the address
      rw [sdlData] at height hbeyond
      omega
    · exact not_false

theorem resolve_eq_none_iff (hfin : fin ≤ buf.length) :
    routeResolveIfname buf (if HasLink buf addrs fin mask then some (saPos buf addrs mask rtaxIfp) else none) = none ↔
      ShortLink buf addrs fin mask := by
  by_cases hlink : HasLink buf addrs fin mask
  · rw [if_pos hlink, routeResolveIfname_eq_none_iff hlink.1.whole hfin, ShortLink]
    exact ⟨fun hshort => ⟨hlink, hshort⟩, fun hshort => hshort.2⟩
  · rw [if_neg hlink]
    exact iff_of_false (Option.some_ne_none _) fun hshort => hlink hshort.1

theorem handleRtmNewaddr_eq_none_iff (hroom : cp + rtMsghdrLen ≤ buf.length) (hfin : fin ≤ buf.length) :
    handleRtmNewaddr buf cp fin = none ↔ ShortLink buf (cp + ifaMsghdrLen) fin (maskAt buf cp) := by
  rw [rtMsghdrLen] at hroom
  obtain ⟨index, hindex⟩ := Option.isSome_iff_exists.1 (isSome_read16 (show cp + 12 + 2 ≤ buf.length by omega))
  rw [handleRtmNewaddr, read32_eq_maskAt (by omega)]
  simp only [Option.bind_eq_bind, Option.bind_some, routeMsgGetIfp_eq hfin, hindex]
  exact resolve_eq_none_iff hfin

theorem handleRtmIfinfo_eq_none_iff (hroom : cp + rtMsghdrLen ≤ buf.length) (hfin : fin ≤ buf.length) :
    handleRtmIfinfo n buf cp fin = none ↔ ShortLink buf (cp + n) fin (maskAt buf cp) := by
  rw [rtMsghdrLen] at hroom
  obtain ⟨index, hindex⟩ := Option.isSome_iff_exists.1 (isSome_read16 (show cp + 12 + 2 ≤ buf.length by omega))
  obtain ⟨flags, hflags⟩ := Option.isSome_iff_exists.1 (isSome_read32 (show cp + 8 + 4 ≤ buf.length by omega))
  rw [handleRtmIfinfo, read32_eq_maskAt (by omega)]
  simp only [Option.bind_eq_bind, Option.bind_some, routeMsgGetIfp_eq hfin, hindex, hflags]
  exact resolve_eq_none_iff hfin

/-- The address that was taken away is there, and of the family of the server. -/
def HasFamily (family : UInt8) (buf : Bytes) (addrs fin mask : Nat) : Prop :=
  HasAddr buf addrs fin mask rtaxIfa ∧ buf[saPos buf addrs mask rtaxIfa + 1]? = some family

instance (buf : Bytes) (addrs fin mask : Nat) : Decidable (HasFamily family buf addrs fin mask) :=
  inferInstanceAs (Decidable (_ ∧ _))

theorem handleRtmDeladdr_eq_none_iff (hroom : cp + rtMsghdrLen ≤ buf.length) (hfin : fin ≤ buf.length) :
    handleRtmDeladdr family buf cp fin = none ↔ HasFamily family buf (cp + ifaMsghdrLen) fin (maskAt buf cp) ∧
      ShortLink buf (cp + ifaMsghdrLen) fin (maskAt buf cp) := by
  rw [rtMsghdrLen] at hroom
  obtain ⟨index, hindex⟩ := Option.isSome_iff_exists.1 (isSome_read16 (show cp + 12 + 2 ≤ buf.length by omega))
  rw [handleRtmDeladdr, read32_eq_maskAt (by omega)]
  simp only [Option.bind_eq_bind, Option.bind_some]
  rw [routeMsgGetAddr_eq hfin (by decide), Option.bind_some]
  by_cases haddr : HasAddr buf (cp + ifaMsghdrLen) fin (maskAt buf cp) rtaxIfa
  · have haddrRoom := haddr.room
    obtain ⟨b, hb, -⟩ := getElem?_eq_byteAt
      (show saPos buf (cp + ifaMsghdrLen) (maskAt buf cp) rtaxIfa + 1 < buf.length by omega)
    rw [if_pos haddr]
    dsimp only
    rw [hb, Option.bind_some]
    by_cases hfamily : b = family
    · rw [if_neg (not_not_intro hfamily)]
      simp only [Option.bind_some, routeMsgGetIfp_eq hfin, hindex]
      rw [resolve_eq_none_iff hfin]
      exact ⟨fun hshort => ⟨⟨haddr, hfamily ▸ hb⟩, hshort⟩, fun h => h.2⟩
    · rw [if_pos hfamily]
      exact iff_of_false (Option.some_ne_none _) fun h => hfamily (Option.some.inj (hb.symm.trans h.1.2))
  · rw [if_neg haddr]
    exact iff_of_false (Option.some_ne_none _) fun h => haddr h.1.1

/-- The name of the interface is looked for beyond what was received, for a message of this
    type. -/
def Strays (n : Nat) (family : UInt8) (buf : Bytes) (cp len : Nat) (type : UInt8) : Prop :=
  type = rtmNewaddr ∧ ifaMsghdrLen ≤ len ∧ ShortLink buf (cp + ifaMsghdrLen) (cp + len) (maskAt buf cp) ∨
    type = rtmDeladdr ∧ ifaMsghdrLen ≤ len ∧ HasFamily family buf (cp + ifaMsghdrLen) (cp + len) (maskAt buf cp) ∧
      ShortLink buf (cp + ifaMsghdrLen) (cp + len) (maskAt buf cp) ∨
    type = rtmIfinfo ∧ n ≤ len ∧ ShortLink buf (cp + n) (cp + len) (maskAt buf cp)

/-- A handler that is called only for messages of some length. -/
theorem guarded_eq_none_iff {α β : Type} {m len : Nat} {handler : Option α} {calls : α → List β} {P : Prop}
    (h : handler = none ↔ P) : (if len < m then some [] else handler.map calls) = none ↔ m ≤ len ∧ P := by
  by_cases hlen : len < m
  · rw [if_pos hlen]
    exact iff_of_false (Option.some_ne_none _) fun h => Nat.not_lt.2 h.1 hlen
  · rw [if_neg hlen, Option.map_eq_none_iff, h]
    exact (and_iff_right (Nat.not_lt.1 hlen)).symm

theorem dispatch_eq_none_iff {len : Nat} {type : UInt8} (hroom : cp + rtMsghdrLen ≤ buf.length)
    (hfits : cp + len ≤ buf.length) : dispatch n family buf cp len type = none ↔ Strays n family buf cp len type := by
  have hdelNew : rtmDeladdr ≠ rtmNewaddr := by decide
  have hinfoNew : rtmIfinfo ≠ rtmNewaddr := by decide
  have hinfoDel : rtmIfinfo ≠ rtmDeladdr := by decide
  rw [dispatch, Strays]
  by_cases hnew : type = rtmNewaddr
  · rw [if_pos hnew, guarded_eq_none_iff (handleRtmNewaddr_eq_none_iff hroom hfits)]
    simp only [hnew, hdelNew.symm, hinfoNew.symm, true_and, false_and, or_false]
  rw [if_neg hnew]
  by_cases hdel : type = rtmDeladdr
  · rw [if_pos hdel, guarded_eq_none_iff (handleRtmDeladdr_eq_none_iff hroom hfits)]
    simp only [hdel, hdelNew, hinfoDel.symm, true_and, false_and, or_false, false_or]
  rw [if_neg hdel]
  by_cases hinfo : type = rtmIfinfo
  · rw [if_pos hinfo, guarded_eq_none_iff (handleRtmIfinfo_eq_none_iff hroom hfits)]
    simp only [hinfo, hinfoNew, hinfoDel, true_and, false_and, false_or]
  · rw [if_neg hinfo]
    simp only [hnew, hdel, hinfo, false_and, or_false, reduceCtorEq]

end Handlers

/-! ## How the walk goes -/

section Walking

variable {buf : Bytes} {n : Nat} {family : UInt8} {fuel cp len : Nat} {version type : UInt8}

/-- There is room for the longest header, and these are the length, the version and the type. -/
structure Here (buf : Bytes) (cp len : Nat) (version type : UInt8) : Prop where
  room : cp + rtMsghdrLen ≤ buf.length
  msglen : read16 buf cp = some len
  version : buf[cp + 2]? = some version
  type : buf[cp + 3]? = some type

theorem exists_here (hroom : cp + rtMsghdrLen ≤ buf.length) : ∃ len version type, Here buf cp len version type := by
  have hlong : cp + 4 ≤ buf.length := by
    rw [rtMsghdrLen] at hroom
    omega
  obtain ⟨len, hlen⟩ := Option.isSome_iff_exists.1 (isSome_read16 (show cp + 2 ≤ buf.length by omega))
  obtain ⟨version, hversion, -⟩ := getElem?_eq_byteAt (show cp + 2 < buf.length by omega)
  obtain ⟨type, htype, -⟩ := getElem?_eq_byteAt (show cp + 3 < buf.length by omega)
  exact ⟨len, version, type, hroom, hlen, hversion, htype⟩

/-- One round of the walk. -/
theorem walkLoop_succ (h : Here buf cp len version type) :
    walkLoop n family buf (fuel + 1) cp =
      if len = 0 then .ended []
      else if buf.length < cp + len then .ended []
      else if version ≠ rtmVersion then walkLoop n family buf fuel (cp + len)
      else
        match dispatch n family buf cp len type with
        | none => .overread
        | some calls => (walkLoop n family buf fuel (cp + len)).after calls := by
  have hroom := h.room
  rw [rtMsghdrLen] at hroom
  rw [walkLoop, if_neg (by omega), if_neg (by rw [rtMsghdrLen]; omega), h.msglen, h.version, h.type]

/-- Without room for the longest header, the walk ends. -/
theorem walkLoop_of_short (hroom : ¬cp + rtMsghdrLen ≤ buf.length) (hfuel : buf.length ≤ cp + fuel) :
    walkLoop n family buf fuel cp = .ended [] := by
  cases fuel with
  | zero =>
    rw [walkLoop]
    exact if_pos hfuel
  | succ fuel =>
    rw [walkLoop]
    split_ifs with hend hshort
    · rfl
    · rfl
    · exact absurd (by omega) hroom

/-- The walk comes from an offset to the message at `cp'`. -/
inductive Reaches (buf : Bytes) (cp' : Nat) : Nat → Prop
  | here : Reaches buf cp' cp'
  | next {cp len : Nat} {version type : UInt8} (here : Here buf cp len version type) (pos : len ≠ 0)
      (fits : cp + len ≤ buf.length) (rest : Reaches buf cp' (cp + len)) : Reaches buf cp' cp

/-- A message of the right version that the walk comes to makes it read too far. -/
def StraysFrom (n : Nat) (family : UInt8) (buf : Bytes) (cp : Nat) : Prop :=
  ∃ cp' len type, Reaches buf cp' cp ∧ Here buf cp' len rtmVersion type ∧ len ≠ 0 ∧ cp' + len ≤ buf.length ∧
    Strays n family buf cp' len type

theorem Here.inj {len' : Nat} {version' type' : UInt8} (h : Here buf cp len version type)
    (h' : Here buf cp len' version' type') : len' = len ∧ version' = version ∧ type' = type :=
  ⟨Option.some.inj (h'.msglen.symm.trans h.msglen), Option.some.inj (h'.version.symm.trans h.version),
    Option.some.inj (h'.type.symm.trans h.type)⟩

theorem not_straysFrom_of_short (hroom : ¬cp + rtMsghdrLen ≤ buf.length) : ¬StraysFrom n family buf cp := by
  rintro ⟨cp', len, type, hreach, hhere, -⟩
  cases hreach with
  | here => exact hroom hhere.room
  | next hhere' => exact hroom hhere'.room

/-- A round goes on behind its message, or reads too far itself. -/
theorem straysFrom_iff (h : Here buf cp len version type) : StraysFrom n family buf cp ↔
    len ≠ 0 ∧ cp + len ≤ buf.length ∧
      (version = rtmVersion ∧ Strays n family buf cp len type ∨ StraysFrom n family buf (cp + len)) := by
  constructor
  · rintro ⟨cp', len', type', hreach, hhere, hpos, hfits, hstrays⟩
    cases hreach with
    | here =>
      obtain ⟨rfl, hversion, rfl⟩ := h.inj hhere
      exact ⟨hpos, hfits, .inl ⟨hversion.symm, hstrays⟩⟩
    | next hhere₁ hpos₁ hfits₁ hrest =>
      obtain ⟨rfl, -⟩ := h.inj hhere₁
      exact ⟨hpos₁, hfits₁, .inr ⟨cp', len', type', hrest, hhere, hpos, hfits, hstrays⟩⟩
  · rintro ⟨hpos, hfits, ⟨rfl, hstrays⟩ | ⟨cp', len', type', hreach, hrest⟩⟩
    · exact ⟨cp, len, type, .here, h, hpos, hfits, hstrays⟩
    · exact ⟨cp', len', type', .next h hpos hfits hreach, hrest⟩

theorem after_eq_overread_iff {calls : List Dispatch} {w : Walk} : w.after calls = .overread ↔ w = .overread := by
  cases w with
  | ended later => exact iff_of_false Walk.noConfusion Walk.noConfusion
  | overread => exact iff_of_true rfl rfl
  | unfinished => exact iff_of_false Walk.noConfusion Walk.noConfusion

theorem walkLoop_eq_overread_iff (hfuel : buf.length ≤ cp + fuel) :
    walkLoop n family buf fuel cp = .overread ↔ StraysFrom n family buf cp := by
  induction fuel generalizing cp with
  | zero =>
    have hroom : ¬cp + rtMsghdrLen ≤ buf.length := by
      rw [rtMsghdrLen]
      omega
    rw [walkLoop_of_short hroom hfuel]
    exact iff_of_false Walk.noConfusion (not_straysFrom_of_short hroom)
  | succ fuel ih =>
    by_cases hroom : cp + rtMsghdrLen ≤ buf.length
    · obtain ⟨len, version, type, hhere⟩ := exists_here hroom
      rw [walkLoop_succ hhere, straysFrom_iff hhere]
      by_cases hzero : len = 0
      · rw [if_pos hzero]
        exact iff_of_false Walk.noConfusion fun h => h.1 hzero
      rw [if_neg hzero]
      by_cases hlong : buf.length < cp + len
      · rw [if_pos hlong]
        exact iff_of_false Walk.noConfusion fun h => Nat.not_lt.2 h.2.1 hlong
      rw [if_neg hlong]
      have hfits : cp + len ≤ buf.length := Nat.not_lt.1 hlong
      have hrest := ih (show buf.length ≤ cp + len + fuel by omega)
      by_cases hversion : version = rtmVersion
      · rw [if_neg (not_not_intro hversion)]
        have hdispatch : dispatch n family buf cp len type = none ↔ _ := dispatch_eq_none_iff hroom hfits
        cases hcalls : dispatch n family buf cp len type with
        | none => exact iff_of_true rfl ⟨hzero, hfits, .inl ⟨hversion, hdispatch.1 hcalls⟩⟩
        | some calls =>
          have hnot : ¬Strays n family buf cp len type := fun h =>
            Option.some_ne_none _ (hcalls.symm.trans (hdispatch.2 h))
          refine after_eq_overread_iff.trans (hrest.trans ⟨fun h => ⟨hzero, hfits, .inr h⟩, fun h => ?_⟩)
          exact h.2.2.resolve_left fun hstrays => hnot hstrays.2
      · rw [if_pos hversion, hrest]
        exact ⟨fun h => ⟨hzero, hfits, .inr h⟩, fun h => h.2.2.resolve_left fun hstrays => hversion hstrays.1⟩
    · rw [walkLoop_of_short hroom hfuel]
      exact iff_of_false Walk.noConfusion (not_straysFrom_of_short hroom)

/-- Every round but the last goes on by at least a byte. -/
theorem walkLoop_ne_unfinished (hfuel : buf.length ≤ cp + fuel) : walkLoop n family buf fuel cp ≠ .unfinished := by
  induction fuel generalizing cp with
  | zero =>
    have hroom : ¬cp + rtMsghdrLen ≤ buf.length := by
      rw [rtMsghdrLen]
      omega
    rw [walkLoop_of_short hroom hfuel]
    exact Walk.noConfusion
  | succ fuel ih =>
    by_cases hroom : cp + rtMsghdrLen ≤ buf.length
    · obtain ⟨len, version, type, hhere⟩ := exists_here hroom
      rw [walkLoop_succ hhere]
      have hrest (hpos : ¬len = 0) := ih (show buf.length ≤ cp + len + fuel by omega)
      split_ifs with hzero hlong hversion
      · exact Walk.noConfusion
      · exact Walk.noConfusion
      · exact hrest hzero
      · cases dispatch n family buf cp len type with
        | none => exact Walk.noConfusion
        | some calls =>
          have hlater := hrest hzero
          dsimp only
          cases hwalk : walkLoop n family buf fuel (cp + len) with
          | ended later => exact Walk.noConfusion
          | overread => exact Walk.noConfusion
          | unfinished => exact absurd hwalk hlater
    · rw [walkLoop_of_short hroom hfuel]
      exact Walk.noConfusion

end Walking

/-! ## Well-formed messages -/

/-- The types of messages that have a handler. -/
def IsHandled (type : UInt8) : Prop := type = rtmNewaddr ∨ type = rtmDeladdr ∨ type = rtmIfinfo

instance (type : UInt8) : Decidable (IsHandled type) := inferInstanceAs (Decidable (_ ∨ _))

/-- The length of the header of a type; the first 4 bytes are the same for all. -/
def headerLen (ifMsghdrLen : Nat) (type : UInt8) : Nat :=
  if type = rtmNewaddr ∨ type = rtmDeladdr then ifaMsghdrLen else if type = rtmIfinfo then ifMsghdrLen else 4

/-- The type of a message. -/
def typeOf (m : Bytes) : UInt8 := m.getD 3 0

/-- A message of the right version with a handler. -/
def Wanted (m : Bytes) : Prop := m[2]? = some rtmVersion ∧ IsHandled (typeOf m)

instance (m : Bytes) : Decidable (Wanted m) := inferInstanceAs (Decidable (_ ∧ _))

/-- A socket address, padded to 4 bytes. -/
def IsSlot (slot : Bytes) : Prop := ∃ saLen ∈ slot.head?, slot.length = routeSaRoundup saLen.toNat

instance (slot : Bytes) : Decidable (IsSlot slot) := inferInstanceAs (Decidable (∃ saLen ∈ slot.head?, _))

/-- The socket addresses of the indices below one, in ascending order, per the mask. -/
def slotsBelow (mask : Nat) (slots : Nat → Bytes) (i : Nat) : Bytes :=
  (List.range i).flatMap fun j => if mask.testBit j then slots j else []

/-- The message carries these socket addresses behind its header. -/
structure Carries (ifMsghdrLen : Nat) (m : Bytes) (mask : Nat) (slots : Nat → Bytes) : Prop where
  addrsMask : read32 m 4 = some mask
  slot : ∀ i < rtaxMax, mask.testBit i = true → IsSlot (slots i)
  addrs : m.drop (headerLen ifMsghdrLen (typeOf m)) = slotsBelow mask slots rtaxMax

/-- The length field is right, the header is there, and so are the socket addresses of a message
    that has a handler. -/
structure WellFormed (ifMsghdrLen : Nat) (m : Bytes) : Prop where
  msglen : read16 m 0 = some m.length
  header : headerLen ifMsghdrLen (typeOf m) ≤ m.length
  carries : IsHandled (typeOf m) → ∃ mask slots, Carries ifMsghdrLen m mask slots

/-- The calls for messages one behind another, from an offset. -/
def expected : Nat → List Bytes → List Dispatch
  | _, [] => []
  | cp, m :: ms => (if Wanted m then [⟨typeOf m, cp, m.length⟩] else []) ++ expected (cp + m.length) ms

/-- The messages that the walk comes to. -/
def walked : List Bytes → List Bytes
  | [] => []
  | m :: ms => if (m :: ms).flatten.length < rtMsghdrLen then [] else m :: walked ms

section WellFormed

variable {buf pre m : Bytes} {ms : List Bytes} {n : Nat} {family : UInt8} {fuel cp : Nat}

theorem four_le_headerLen (hn : rtMsghdrLen ≤ n) (type : UInt8) : 4 ≤ headerLen n type := by
  rw [rtMsghdrLen] at hn
  rw [headerLen, ifaMsghdrLen]
  split_ifs
  · decide
  · omega
  · exact Nat.le_refl _

/-- What is read of a message within a buffer. -/
theorem getElem?_message {i : Nat} (hi : i < m.length) (pre post : Bytes) :
    (pre ++ (m ++ post))[pre.length + i]? = m[i]? := by
  rw [List.getElem?_append_right (Nat.le_add_right _ _), Nat.add_sub_cancel_left, List.getElem?_append_left hi]

theorem read16_message {i : Nat} (hi : i + 2 ≤ m.length) (pre post : Bytes) :
    read16 (pre ++ (m ++ post)) (pre.length + i) = read16 m i := by
  rw [read16, Nat.add_assoc, getElem?_message (by omega), getElem?_message (by omega), read16]

theorem read32_message {i : Nat} (hi : i + 4 ≤ m.length) (pre post : Bytes) :
    read32 (pre ++ (m ++ post)) (pre.length + i) = read32 m i := by
  rw [read32, Nat.add_assoc, read16_message (by omega), read16_message (by omega), read32]

theorem byteAt_message {i : Nat} (hi : i < m.length) (pre post : Bytes) :
    byteAt (pre ++ (m ++ post)) (pre.length + i) = byteAt m i := by
  rw [byteAt, List.getD_eq_getElem?_getD, getElem?_message hi, byteAt, List.getD_eq_getElem?_getD]

theorem dispatch_of_wellFormed (hm : WellFormed n m) {calls : List Dispatch}
    (h : dispatch n family buf cp m.length (typeOf m) = some calls) :
    calls = if IsHandled (typeOf m) then [⟨typeOf m, cp, m.length⟩] else [] := by
  have hheader := hm.header
  rw [headerLen] at hheader
  rw [dispatch] at h
  by_cases hnew : typeOf m = rtmNewaddr
  · rw [if_pos (.inl hnew)] at hheader
    rw [if_pos hnew, if_neg (Nat.not_lt.2 hheader)] at h
    obtain ⟨name, -, rfl⟩ := Option.map_eq_some_iff.1 h
    rw [if_pos (show IsHandled (typeOf m) from .inl hnew)]
  rw [if_neg hnew] at h
  by_cases hdel : typeOf m = rtmDeladdr
  · rw [if_pos (.inr hdel)] at hheader
    rw [if_pos hdel, if_neg (Nat.not_lt.2 hheader)] at h
    obtain ⟨name, -, rfl⟩ := Option.map_eq_some_iff.1 h
    rw [if_pos (show IsHandled (typeOf m) from .inr (.inl hdel))]
  rw [if_neg (not_or.2 ⟨hnew, hdel⟩)] at hheader
  rw [if_neg hdel] at h
  by_cases hinfo : typeOf m = rtmIfinfo
  · rw [if_pos hinfo] at hheader
    rw [if_pos hinfo, if_neg (Nat.not_lt.2 hheader)] at h
    obtain ⟨name, -, rfl⟩ := Option.map_eq_some_iff.1 h
    rw [if_pos (show IsHandled (typeOf m) from .inr (.inr hinfo))]
  · have hnot : ¬IsHandled (typeOf m) := by
      rintro (h | h | h)
      exacts [hnew h, hdel h, hinfo h]
    rw [if_neg hinfo] at h
    rw [if_neg hnot]
    exact (Option.some.inj h).symm

/-- The walk makes the calls of the messages it comes to, unless it reads too far. -/
theorem walkLoop_messages (hn : rtMsghdrLen ≤ n) (hms : ∀ m ∈ ms, WellFormed n m) (hbuf : buf = pre ++ ms.flatten)
    (hfuel : buf.length ≤ pre.length + fuel) (h : walkLoop n family buf fuel pre.length ≠ .overread) :
    walkLoop n family buf fuel pre.length = .ended (expected pre.length (walked ms)) := by
  induction ms generalizing pre fuel with
  | nil =>
    have hroom : ¬pre.length + rtMsghdrLen ≤ buf.length := by
      rw [hbuf, List.flatten_nil, List.append_nil, rtMsghdrLen]
      omega
    exact walkLoop_of_short hroom hfuel
  | cons m ms ih =>
    obtain ⟨hm, hms⟩ := List.forall_mem_cons.1 hms
    rw [walked]
    have hlen : buf.length = pre.length + (m :: ms).flatten.length := by rw [hbuf, List.length_append]
    by_cases hshort : (m :: ms).flatten.length < rtMsghdrLen
    · rw [if_pos hshort]
      exact walkLoop_of_short (by omega) hfuel
    rw [if_neg hshort]
    have hfour : 4 ≤ m.length := (four_le_headerLen hn _).trans hm.header
    have hsplit : buf = pre ++ (m ++ ms.flatten) := by rw [hbuf, List.flatten_cons]
    have hmlen : (m :: ms).flatten.length = m.length + ms.flatten.length := by
      rw [List.flatten_cons, List.length_append]
    have hpos : ¬m.length = 0 := by omega
    have hfits : ¬buf.length < pre.length + m.length := by omega
    obtain ⟨version, hversion⟩ : ∃ version, m[2]? = some version := ⟨_, List.getElem?_eq_getElem (by omega)⟩
    have htype : m[3]? = some (typeOf m) := by
      rw [typeOf, List.getD_eq_getElem _ _ (by omega)]
      exact List.getElem?_eq_getElem _
    have hhere : Here buf pre.length m.length version (typeOf m) := by
      refine ⟨by omega, ?_, ?_, ?_⟩
      · rw [hsplit]
        exact (read16_message (show 0 + 2 ≤ m.length by omega) pre _).trans hm.msglen
      · rw [hsplit, getElem?_message (by omega), hversion]
      · rw [hsplit, getElem?_message (by omega), htype]
    obtain ⟨fuel, rfl⟩ : ∃ k, fuel = k + 1 := ⟨fuel - 1, by omega⟩
    have hnext : buf = pre ++ m ++ ms.flatten := by rw [hsplit, List.append_assoc]
    have hlater := ih hms hnext (show buf.length ≤ (pre ++ m).length + fuel by rw [List.length_append]; omega)
    rw [List.length_append] at hlater
    rw [walkLoop_succ hhere, if_neg hpos, if_neg hfits] at h ⊢
    rw [expected]
    by_cases hright : version = rtmVersion
    · rw [if_neg (not_not_intro hright)] at h ⊢
      have hwanted : Wanted m ↔ IsHandled (typeOf m) := and_iff_right (hversion.trans (congrArg some hright))
      cases hcalls : dispatch n family buf pre.length m.length (typeOf m) with
      | none =>
        rw [hcalls] at h
        exact absurd rfl h
      | some calls =>
        rw [hcalls] at h
        dsimp only at h ⊢
        rw [hlater fun hover => h (after_eq_overread_iff.2 hover), Walk.after, dispatch_of_wellFormed hm hcalls]
        simp only [hwanted]
    · have hnot : ¬Wanted m := fun hwanted => hright (Option.some.inj (hversion.symm.trans hwanted.1))
      rw [if_pos hright] at h ⊢
      rw [hlater h, if_neg hnot, List.nil_append]

/-! ### The addresses of a message -/

variable {mask : Nat} {slots : Nat → Bytes} {post : Bytes}

theorem slotsBelow_succ (i : Nat) :
    slotsBelow mask slots (i + 1) = slotsBelow mask slots i ++ if mask.testBit i then slots i else [] := by
  rw [slotsBelow, List.range_succ, List.flatMap_append, List.flatMap_cons, List.flatMap_nil, List.append_nil, slotsBelow]

/-- The addresses of the indices below one come first. -/
theorem slotsBelow_prefix {i k : Nat} (h : i ≤ k) : ∃ rest, slotsBelow mask slots k = slotsBelow mask slots i ++ rest := by
  induction h with
  | refl => exact ⟨[], (List.append_nil _).symm⟩
  | @step k _ ih =>
    obtain ⟨rest, hrest⟩ := ih
    refine ⟨rest ++ if mask.testBit k then slots k else [], ?_⟩
    rw [slotsBelow_succ, hrest, List.append_assoc]

theorem byteAt_slot {saLen : UInt8} {slot : Bytes} (h : slot.head? = some saLen) (pre post : Bytes) :
    byteAt (pre ++ (slot ++ post)) pre.length = saLen.toNat := by
  cases slot with
  | nil => cases h
  | cons b slot =>
    obtain rfl := Option.some.inj h
    rw [byteAt, List.getD_eq_getElem?_getD, List.getElem?_append_right (Nat.le_refl _), Nat.sub_self]
    rfl

/-- The address of an index in the mask starts with its length, behind those of the indices below,
    and is within the addresses with its padding. -/
theorem byteAt_slotsBelow (hslots : ∀ i < rtaxMax, mask.testBit i = true → IsSlot (slots i))
    (hbuf : buf = pre ++ (slotsBelow mask slots rtaxMax ++ post)) {i : Nat} (hi : i < rtaxMax)
    (hbit : mask.testBit i = true) :
    (slots i).length = routeSaRoundup (byteAt buf (pre.length + (slotsBelow mask slots i).length)) ∧
      (slotsBelow mask slots i).length + (slots i).length ≤ (slotsBelow mask slots rtaxMax).length := by
  obtain ⟨saLen, hhead, hlen⟩ := hslots i hi hbit
  obtain ⟨rest, hrest⟩ : ∃ rest, slotsBelow mask slots rtaxMax = slotsBelow mask slots (i + 1) ++ rest :=
    slotsBelow_prefix hi
  rw [slotsBelow_succ, if_pos hbit, List.append_assoc] at hrest
  have hbyte : byteAt buf (pre.length + (slotsBelow mask slots i).length) = saLen.toNat := by
    rw [hbuf, hrest, ← List.length_append, List.append_assoc, List.append_assoc, ← List.append_assoc pre]
    exact byteAt_slot hhead _ _
  rw [hbyte, hlen, hrest, List.length_append, List.length_append, hlen]
  exact ⟨rfl, by omega⟩

/-- The walk over the addresses finds each where it is. -/
theorem saPos_slots (hslots : ∀ i < rtaxMax, mask.testBit i = true → IsSlot (slots i))
    (hbuf : buf = pre ++ (slotsBelow mask slots rtaxMax ++ post)) {i : Nat} (hi : i ≤ rtaxMax) :
    saPos buf pre.length mask i = pre.length + (slotsBelow mask slots i).length := by
  induction i with
  | zero => rfl
  | succ i ih =>
    rw [saPos, ih (Nat.le_of_succ_le hi), slotsBelow_succ, List.length_append]
    by_cases hbit : mask.testBit i = true
    · obtain ⟨hlen, -⟩ := byteAt_slotsBelow hslots hbuf hi hbit
      rw [if_pos hbit, if_pos hbit, ← hlen, Nat.add_assoc]
    · rw [if_neg hbit, if_neg hbit, List.length_nil, Nat.add_zero]

theorem four_le_routeSaRoundup (a : Nat) : 4 ≤ routeSaRoundup a := by
  rw [routeSaRoundup]
  split_ifs
  · have hor : 3 ≤ (a - 1) ||| 3 := Nat.right_le_or
    omega
  · exact Nat.le_refl _

/-- The wanted address is found exactly if its bit is set. -/
theorem routeMsgGetAddr_message (hm : headerLen n (typeOf m) ≤ m.length) (hcarries : Carries n m mask slots)
    (hbuf : buf = pre ++ (m ++ post)) {want : Nat} (hwant : want < rtaxMax) :
    routeMsgGetAddr buf (pre.length + headerLen n (typeOf m)) (pre.length + m.length) mask want =
      some (if mask.testBit want then
        some (pre.length + headerLen n (typeOf m) + (slotsBelow mask slots want).length) else none) := by
  have hsplit : buf = pre ++ m.take (headerLen n (typeOf m)) ++ (slotsBelow mask slots rtaxMax ++ post) := by
    rw [hbuf, ← hcarries.addrs, List.append_assoc, ← List.append_assoc (m.take _), List.take_append_drop]
  have hstart : (pre ++ m.take (headerLen n (typeOf m))).length = pre.length + headerLen n (typeOf m) := by
    rw [List.length_append, List.length_take_of_le hm]
  have hslotsLen : (slotsBelow mask slots rtaxMax).length = m.length - headerLen n (typeOf m) := by
    rw [← hcarries.addrs, List.length_drop]
  have hpos := saPos_slots hcarries.slot hsplit (Nat.le_of_lt hwant)
  rw [hstart] at hpos
  have hfin : pre.length + m.length ≤ buf.length := by
    rw [hbuf, List.length_append, List.length_append]
    omega
  rw [routeMsgGetAddr_eq hfin hwant, hpos]
  refine congrArg some (if_congr ⟨fun haddr => haddr.bit, fun hbit => ?_⟩ rfl rfl)
  -- the address lies within the message, with its padding
  obtain ⟨hlen, hwithin⟩ := byteAt_slotsBelow hcarries.slot hsplit hwant hbit
  rw [hstart] at hlen
  have hle := le_routeSaRoundup (byteAt buf (pre.length + headerLen n (typeOf m) + (slotsBelow mask slots want).length))
  have hfour := four_le_routeSaRoundup (byteAt buf (pre.length + headerLen n (typeOf m) + (slotsBelow mask slots want).length))
  rw [← hlen] at hle hfour
  refine ⟨hbit, ?_, ?_⟩
  · rw [hpos]
    omega
  · rw [hpos]
    omega

end WellFormed

/-! ## All of a buffer -/

/-- The calls are those for the messages with a handler, once each and in order; the addresses of
    a message are found; and the walk ends, within what was received. -/
structure Seen (ifMsghdrLen : Nat) (family : UInt8) (buf : Bytes) : Prop where
  ends : onRouteEvent ifMsghdrLen family buf ≠ .unfinished
  within : onRouteEvent ifMsghdrLen family buf ≠ .overread
  dispatched : ∀ ms, (∀ m ∈ ms, WellFormed ifMsghdrLen m) → buf = ms.flatten →
    onRouteEvent ifMsghdrLen family buf = .ended (expected 0 ms)
  found : ∀ l m r mask slots, (∀ m' ∈ l ++ m :: r, WellFormed ifMsghdrLen m') → buf = (l ++ m :: r).flatten →
    Carries ifMsghdrLen m mask slots → ∀ want < rtaxMax,
      routeMsgGetAddr buf (l.flatten.length + headerLen ifMsghdrLen (typeOf m)) (l.flatten.length + m.length) mask want =
        some (if mask.testBit want then
          some (l.flatten.length + headerLen ifMsghdrLen (typeOf m) + (slotsBelow mask slots want).length) else none)

/-- Each message with a handler starts 92 bytes or more before the end. -/
def InReach (ifMsghdrLen : Nat) (buf : Bytes) : Prop :=
  ∀ l m r, (∀ m' ∈ l ++ m :: r, WellFormed ifMsghdrLen m') → buf = (l ++ m :: r).flatten → Wanted m →
    rtMsghdrLen ≤ (m :: r).flatten.length

section All

variable {buf : Bytes} {n : Nat} {family : UInt8}

theorem expected_eq_nil_iff {cp : Nat} {ms : List Bytes} : expected cp ms = [] ↔ ∀ m ∈ ms, ¬Wanted m := by
  induction ms generalizing cp with
  | nil => exact iff_of_true rfl fun m hm => absurd hm List.not_mem_nil
  | cons m ms ih =>
    rw [expected, List.append_eq_nil_iff, ih, List.forall_mem_cons]
    refine and_congr_left fun _ => ?_
    by_cases hm : Wanted m
    · rw [if_pos hm]
      exact iff_of_false (List.cons_ne_nil _ _) (not_not_intro hm)
    · rw [if_neg hm]
      exact iff_of_true rfl hm

/-- No call is missed exactly if the walk comes to every message with a handler. -/
theorem expected_walked_iff {cp : Nat} {ms : List Bytes} : expected cp (walked ms) = expected cp ms ↔
    ∀ l m r, ms = l ++ m :: r → Wanted m → rtMsghdrLen ≤ (m :: r).flatten.length := by
  induction ms generalizing cp with
  | nil => exact iff_of_true rfl fun l m r heq => absurd heq.symm (by simp)
  | cons m ms ih =>
    rw [walked]
    by_cases hshort : (m :: ms).flatten.length < rtMsghdrLen
    · rw [if_pos hshort, eq_comm, expected, expected_eq_nil_iff]
      constructor
      · intro hall l m' r heq hwanted
        exact absurd hwanted (hall m' (heq ▸ List.mem_append_right l List.mem_cons_self))
      · intro hall m' hm' hwanted
        -- what is behind a message is not longer than all of it
        obtain ⟨l, r, heq⟩ := List.append_of_mem hm'
        have hle := hall l m' r heq hwanted
        rw [heq, List.flatten_append, List.length_append] at hshort
        omega
    · rw [if_neg hshort, expected, expected, List.append_cancel_left_eq, ih]
      constructor
      · intro hall l m' r heq hwanted
        cases l with
        | nil =>
          obtain ⟨rfl, rfl⟩ := List.cons.inj heq
          exact Nat.not_lt.1 hshort
        | cons a l => exact hall l m' r (List.cons.inj heq).2 hwanted
      · intro hall l m' r heq hwanted
        exact hall (m :: l) m' r (by rw [heq, List.cons_append]) hwanted

/-- For every buffer: all of it is seen, and nothing else, if no name is looked for too far, and no
    message with a handler starts too close to the end. -/
theorem seen_iff (hn : rtMsghdrLen ≤ n) (family : UInt8) (buf : Bytes) :
    Seen n family buf ↔ ¬StraysFrom n family buf 0 ∧ InReach n buf := by
  have hfuel : buf.length ≤ 0 + buf.length := by omega
  have hover : onRouteEvent n family buf = .overread ↔ StraysFrom n family buf 0 := walkLoop_eq_overread_iff hfuel
  have hwalk (hnot : onRouteEvent n family buf ≠ .overread) (ms : List Bytes) (hms : ∀ m ∈ ms, WellFormed n m)
      (hbuf : buf = ms.flatten) : onRouteEvent n family buf = .ended (expected 0 (walked ms)) :=
    walkLoop_messages hn hms (show buf = [] ++ ms.flatten from hbuf) (by simp) hnot
  constructor
  · intro h
    refine ⟨fun hstrays => h.within (hover.2 hstrays), fun l m r hms hbuf hwanted => ?_⟩
    have heq := (hwalk h.within _ hms hbuf).symm.trans (h.dispatched _ hms hbuf)
    exact expected_walked_iff.1 (Walk.ended.inj heq) l m r rfl hwanted
  · rintro ⟨hstrays, hreach⟩
    have hnot : onRouteEvent n family buf ≠ .overread := fun h => hstrays (hover.1 h)
    refine ⟨walkLoop_ne_unfinished hfuel, hnot, fun ms hms hbuf => ?_, ?_⟩
    · rw [hwalk hnot ms hms hbuf]
      refine congrArg Walk.ended (expected_walked_iff.2 fun l m r heq hwanted => ?_)
      subst heq
      exact hreach l m r hms hbuf hwanted
    · intro l m r mask slots hms hbuf hcarries want hwant
      have hm := (hms m (List.mem_append_right l List.mem_cons_self)).header
      have hsplit : buf = l.flatten ++ (m ++ r.flatten) := by rw [hbuf, List.flatten_append, List.flatten_cons]
      exact routeMsgGetAddr_message hm hcarries hsplit hwant

end All

/-! ### Buffers -/

/-- An IPv4 address comes to en0: a message of 80 bytes. -/
def newAddress : Bytes :=
  [80, 0, 5, 0xc, 0xb4, 0, 0, 0, 0, 0, 0, 0, 4, 0, 0, 0, 0, 0, 0, 0] ++
    [7, 0, 0, 0, 255, 255, 255, 0] ++
    [20, 18, 4, 0, 6, 3, 6, 0, 0x65, 0x6e, 0x30, 2, 0, 0, 0, 0, 1, 0, 0, 0] ++
    [16, 2, 0, 0, 192, 168, 1, 2, 0, 0, 0, 0, 0, 0, 0, 0] ++
    [16, 2, 0, 0, 192, 168, 1, 255, 0, 0, 0, 0, 0, 0, 0, 0]

/-- Its addresses: the netmask, the interface, the address and the broadcast address. -/
def newAddressSlots : Nat → Bytes
  | 2 => (newAddress.drop 20).take 8
  | 4 => (newAddress.drop 28).take 20
  | 5 => (newAddress.drop 48).take 16
  | _ => newAddress.drop 64

theorem wellFormed_newAddress : WellFormed 112 newAddress where
  msglen := by decide
  header := by decide
  carries _ := ⟨0xb4, newAddressSlots, by decide, by decide, by decide⟩

/-- A message of 96 bytes whose last address is a link-layer address of 4 bytes. -/
def strayMessage : Bytes :=
  [96, 0, 5, 0xc, 0x11, 0, 0, 0] ++ List.replicate 12 0 ++ 72 :: List.replicate 71 0 ++ [4, 18, 0, 0]

theorem seen_newAddress_iff :
    Seen 112 2 newAddress ↔ ¬StraysFrom 112 2 newAddress 0 ∧ InReach 112 newAddress :=
  seen_iff (by decide) 2 newAddress

/-- Alone in its buffer, the message about the address is never looked at; and the other message
    makes the handler read beyond what was received. -/
theorem not_seen :
    (¬Seen 112 2 newAddress ∧ onRouteEvent 112 2 newAddress = .ended [] ∧ Wanted newAddress) ∧
      ¬Seen 112 2 strayMessage ∧ onRouteEvent 112 2 strayMessage = .overread := by
  have hmissed : onRouteEvent 112 2 newAddress = .ended [] := by decide
  have hstray : onRouteEvent 112 2 strayMessage = .overread := by decide
  refine ⟨⟨fun h => ?_, hmissed, by decide⟩, fun h => h.within hstray, hstray⟩
  have hall := h.dispatched [newAddress] (fun m hm => List.mem_singleton.1 hm ▸ wellFormed_newAddress) (by simp)
  rw [hmissed] at hall
  exact absurd hall (by decide)

end Mqvpn.RouteMon
