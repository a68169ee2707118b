import Mqvpn.Lib.Records
import Mqvpn.Platform.LinuxPaths
import Mqvpn.Reorder.Wire

/-!
# Messages of the kernel

`netlink_mon.c` follows the interfaces of Linux through a netlink socket. A datagram brings
messages, one behind another, and a message of a link brings attributes in the same way: both
are walked with the macros of the kernel's headers, which are a layout of records. A message that
is read becomes an event for the paths.

Every message and every attribute that is visited lies within what was received, whatever it is
(`Visits`); and what the kernel reports comes through as it is: the events that the paths see
are those of the messages, in order, however they are spread over datagrams, with whatever
other messages and attributes between them, and also where a datagram was cut short
(`netlink_exact`).

The machine is little-endian. What is behind a datagram in the buffer reads as zeros here.
-/

namespace Mqvpn.Netlink

open Reorder (Bytes byteAt)
open LinuxPaths (Event Env)

/-! ## Layout -/

/-- `RTM_NEWLINK` -/
def rtmNewlink : Nat := 16

/-- `RTM_DELLINK` -/
def rtmDellink : Nat := 17

/-- `RTM_NEWADDR` -/
def rtmNewaddr : Nat := 20

/-- `RTM_DELADDR` -/
def rtmDeladdr : Nat := 21

/-- `IFLA_IFNAME` -/
def iflaIfname : Nat := 3

/-- `IFLA_OPERSTATE` -/
def iflaOperstate : Nat := 16

/-- `IF_OPER_DOWN` -/
def ifOperDown : Nat := 2

/-- `IF_OPER_LOWERLAYERDOWN` -/
def ifOperLowerlayerdown : Nat := 3

def read16 (b : Bytes) (i : Nat) : Nat := byteAt b i + byteAt b (i + 1) * 256

def read32 (b : Bytes) (i : Nat) : Nat := read16 b i + read16 b (i + 2) * 65536

theorem byteAt_append {b : Bytes} {i : Nat} (hi : i < b.length) (x : Bytes) : byteAt (b ++ x) i = byteAt b i := by
  rw [byteAt, byteAt, List.getD_eq_getElem?_getD, List.getD_eq_getElem?_getD, List.getElem?_append_left hi]

theorem read16_append {b : Bytes} {i : Nat} (hi : i + 2 ≤ b.length) (x : Bytes) : read16 (b ++ x) i = read16 b i := by
  rw [read16, read16, byteAt_append (by omega), byteAt_append (by omega)]

theorem read32_append {b : Bytes} {i : Nat} (hi : i + 4 ≤ b.length) (x : Bytes) : read32 (b ++ x) i = read32 b i := by
  rw [read32, read32, read16_append (by omega), read16_append (by omega)]

/-- `NLMSG_OK` and `NLMSG_NEXT` -/
def nlmsg : Records UInt8 where
  header := 16
  unit := 4
  len b := read32 b 0
  header_pos := by decide
  unit_pos := by decide
  len_append r x h := read32_append (by omega) x

/-- `RTA_OK` and `RTA_NEXT` -/
def rtattr : Records UInt8 where
  header := 4
  unit := 4
  len b := read16 b 0
  header_pos := by decide
  unit_pos := by decide
  len_append r x h := read16_append (by omega) x

/-! ## Messages -/

/-- A string that ends with a zero. -/
def cString (b : Bytes) : Bytes := b.takeWhile (· ≠ 0)

/-- The name of an interface, one character for each byte. -/
def text (b : Bytes) : String := String.ofList (b.map fun c => Char.ofNat c.toNat)

/-- The attributes behind the `struct ifinfomsg` of a message: `IFLA_RTA` and `IFLA_PAYLOAD`. -/
def attributes (nh : Bytes) : List Bytes :=
  rtattr.walk (read32 nh 0 - 32) (read32 nh 0 - 32) (nh.drop 32)

/-- The name in an attribute. -/
def ifnameOf (rta : Bytes) : Option Bytes := if read16 rta 2 = iflaIfname then some (cString (rta.drop 4)) else none

/-- The operational state in an attribute. -/
def operstateOf (rta : Bytes) : Option Nat :=
  if read16 rta 2 = iflaOperstate ∧ 1 ≤ read16 rta 0 - 4 then some (byteAt rta 4) else none

/-- `nlmsg_get_ifname` -/
def nlmsgGetIfname (nh : Bytes) : Option Bytes := (attributes nh).findSome? ifnameOf

/-- `nlmsg_get_operstate`; nothing for -1. -/
def nlmsgGetOperstate (nh : Bytes) : Option Nat := (attributes nh).findSome? operstateOf

/-- `is_carrier_loss`, for a link that is up -/
def isCarrierLoss (operstate : Option Nat) : Bool :=
  operstate = some ifOperDown ∨ operstate = some ifOperLowerlayerdown

/-- What the system answers while a message is handled. -/
structure Answer where
  /-- `if_indextoname` -/
  ifname : Nat → Option String
  env : Env

variable (family : UInt8)

/-- `handle_rtm_newaddr` -/
def handleRtmNewaddr (nh : Bytes) (a : Answer) : Option Event :=
  (a.ifname (read32 nh 20)).map fun ifname => .newAddr ifname a.env

/-- `handle_rtm_deladdr`, up to the search for the interface -/
def handleRtmDeladdr (nh : Bytes) (a : Answer) : Option Event :=
  if byteAt nh 16 ≠ family.toNat then none
  else (a.ifname (read32 nh 20)).map fun ifname => .delAddr ifname true a.env

/-- `handle_rtm_dellink` -/
def handleRtmDellink (nh : Bytes) (a : Answer) : Option Event :=
  (nlmsgGetIfname nh).map fun ifname => .delLink (text ifname) a.env

/-- `handle_rtm_newlink`, as far as it reads the message: the flags `IFF_UP` and `IFF_RUNNING`,
    and the operational state -/
def handleRtmNewlink (nh : Bytes) (a : Answer) : Option Event :=
  (nlmsgGetIfname nh).map fun ifname =>
    .newLink (text ifname) ((read32 nh 24).testBit 0) ((read32 nh 24).testBit 6)
      (isCarrierLoss (nlmsgGetOperstate nh)) a.env

/-- The `switch` of `on_netlink_event` -/
def handle (nh : Bytes) (a : Answer) : Option Event :=
  let type := read16 nh 4
  if type = rtmNewaddr then handleRtmNewaddr nh a
  else if type = rtmDeladdr then handleRtmDeladdr family nh a
  else if type = rtmDellink then handleRtmDellink nh a
  else if type = rtmNewlink then handleRtmNewlink nh a
  else none

/-- The messages of a datagram. -/
def messages (buf : Bytes) : List Bytes := nlmsg.walk buf.length buf.length buf

/-- The events that the messages of a datagram are; each message has its answers. -/
def eventsOf (buf : Bytes) (answers : Nat → Answer) : List Event :=
  ((messages buf).map (handle family)).zipIdx.filterMap fun (h, k) => h (answers k)

/-- The loop of `on_netlink_event`, for what `recv` brings before it would block; the tick behind
    it is an event of its own -/
def onNetlinkEvent (s : LinuxPaths) (recvs : List (Bytes × (Nat → Answer))) : LinuxPaths :=
  recvs.foldl (fun s r => s.run (eventsOf family r.1 r.2)) s

/-! ## What the kernel sends -/

def le16 (v : Nat) : Bytes := [UInt8.ofNat v, UInt8.ofNat (v / 256)]

def le32 (v : Nat) : Bytes := le16 (v % 65536) ++ le16 (v / 65536)

theorem length_le32 (v : Nat) : (le32 v).length = 4 := rfl

theorem byteAt_append_right (p b : Bytes) (i : Nat) : byteAt (p ++ b) (p.length + i) = byteAt b i := by
  rw [byteAt, byteAt, List.getD_eq_getElem?_getD, List.getD_eq_getElem?_getD,
    List.getElem?_append_right (Nat.le_add_right _ _), Nat.add_sub_cancel_left]

/-- A number is read where it was written. -/
theorem read16_le16 {v : Nat} (hv : v < 2 ^ 16) (p x : Bytes) : read16 (p ++ (le16 v ++ x)) p.length = v := by
  have hlow : byteAt (p ++ (le16 v ++ x)) p.length = v % 256 :=
    (byteAt_append_right p _ 0).trans (UInt8.toNat_ofNat' ..)
  have hhigh : byteAt (p ++ (le16 v ++ x)) (p.length + 1) = v / 256 % 256 :=
    (byteAt_append_right p _ 1).trans (UInt8.toNat_ofNat' ..)
  rw [read16, hlow, hhigh]
  omega

theorem read32_le32 {v : Nat} (hv : v < 2 ^ 32) (p x : Bytes) : read32 (p ++ (le32 v ++ x)) p.length = v := by
  have hlow : read16 (p ++ (le32 v ++ x)) p.length = v % 65536 := by
    rw [le32, List.append_assoc]
    exact read16_le16 (by omega) p _
  have hhigh : read16 (p ++ (le32 v ++ x)) (p.length + 2) = v / 65536 := by
    have hread := read16_le16 (v := v / 65536) (by omega) (p ++ le16 (v % 65536)) x
    rw [List.append_assoc, List.length_append] at hread
    rw [le32, List.append_assoc]
    exact hread
  rw [read32, hlow, hhigh]
  omega

/-- An attribute; a name is terminated. -/
structure Attr where
  type : Nat
  payload : Bytes
  type_lt : type < 2 ^ 16
  length_lt : 4 + payload.length < 2 ^ 16
  terminated : type = iflaIfname → 0 ∈ payload

def Attr.bytes (a : Attr) : Bytes := le16 (4 + a.payload.length) ++ (le16 a.type ++ a.payload)

/-- The body of a message of a link: a `struct ifinfomsg`, of which the flags matter, and the
    attributes -/
structure Link where
  front : Bytes
  flags : Nat
  change : Bytes
  attrs : List Attr
  front_length : front.length = 8
  flags_lt : flags < 2 ^ 32
  change_length : change.length = 4

def Link.bytes (l : Link) : Bytes := l.front ++ (le32 l.flags ++ (l.change ++ rtattr.stream 0 (l.attrs.map Attr.bytes)))

/-- The body of a message of an address: a `struct ifaddrmsg`, of which the family and the index
    of the interface matter, and the attributes -/
structure Addr where
  family : UInt8
  front : Bytes
  index : Nat
  rest : Bytes
  front_length : front.length = 3
  index_lt : index < 2 ^ 32

def Addr.bytes (a : Addr) : Bytes := a.family :: a.front ++ (le32 a.index ++ a.rest)

/-- What the kernel has to report. -/
inductive Notice where
  | newLink (l : Link)
  | delLink (l : Link)
  | newAddr (a : Addr)
  | delAddr (a : Addr)
  /-- A message that is none of these. -/
  | other (type : Nat) (body : Bytes) (h : type < 2 ^ 16 ∧ type ∉ [rtmNewlink, rtmDellink, rtmNewaddr, rtmDeladdr])

def Notice.type : Notice → Nat
  | newLink _ => rtmNewlink
  | delLink _ => rtmDellink
  | newAddr _ => rtmNewaddr
  | delAddr _ => rtmDeladdr
  | other type _ _ => type

def Notice.body : Notice → Bytes
  | newLink l => l.bytes
  | delLink l => l.bytes
  | newAddr a => a.bytes
  | delAddr a => a.bytes
  | other _ body _ => body

/-- A message with its header; `control` is `nlmsg_flags`, `nlmsg_seq` and `nlmsg_pid`. -/
structure Message where
  notice : Notice
  control : Bytes
  control_length : control.length = 10
  length_lt : 16 + notice.body.length < 2 ^ 32

def Message.bytes (m : Message) : Bytes :=
  le32 (16 + m.notice.body.length) ++ (le16 m.notice.type ++ (m.control ++ m.notice.body))

/-- What a link is called, and in which state it is: the first attribute of either kind. -/
def Link.name (l : Link) : Option Bytes :=
  l.attrs.findSome? fun a => if a.type = iflaIfname then some (cString a.payload) else none

def Link.operstate (l : Link) : Option Nat :=
  l.attrs.findSome? fun a => if a.type = iflaOperstate then a.payload.head?.map UInt8.toNat else none

/-- The event that a message means. -/
def Notice.event (a : Answer) : Notice → Option Event
  | newLink l =>
    l.name.map fun n =>
      .newLink (text n) (l.flags.testBit 0) (l.flags.testBit 6) (isCarrierLoss l.operstate) a.env
  | delLink l => l.name.map fun n => .delLink (text n) a.env
  | newAddr addr => (a.ifname addr.index).map fun n => .newAddr n a.env
  | delAddr addr => if addr.family = family then (a.ifname addr.index).map fun n => .delAddr n true a.env else none
  | other _ _ _ => none

/-- A datagram: messages, and perhaps a rest that is not a whole one. -/
structure Datagram where
  messages : List Message
  rest : Bytes
  rest_not_ok : ¬nlmsg.Ok rest.length rest

def Datagram.bytes (d : Datagram) : Bytes := nlmsg.stream 0 (d.messages.map Message.bytes) ++ d.rest

/-! ## Reading it -/

theorem length_bytes_attr (a : Attr) : a.bytes.length = 4 + a.payload.length := by
  rw [Attr.bytes, List.length_append, List.length_append]
  change 2 + (2 + _) = _
  omega

theorem whole_attr (a : Attr) : rtattr.Whole a.bytes where
  header := by
    rw [length_bytes_attr]
    exact Nat.le_add_right _ _
  len := (read16_le16 a.length_lt [] _).trans (length_bytes_attr a).symm

theorem type_attr (a : Attr) (x : Bytes) : read16 (a.bytes ++ x) 2 = a.type := by
  rw [Attr.bytes, List.append_assoc, List.append_assoc]
  exact read16_le16 a.type_lt (le16 _) _

theorem payload_attr (a : Attr) (x : Bytes) : (a.bytes ++ x).drop 4 = a.payload ++ x := rfl

theorem cString_append {b : Bytes} (h : 0 ∈ b) (x : Bytes) : cString (b ++ x) = cString b := by
  induction b with
  | nil => exact absurd h List.not_mem_nil
  | cons c b ih =>
    rw [cString, cString, List.cons_append, List.takeWhile_cons, List.takeWhile_cons]
    by_cases hc : c = 0
    · simp [hc]
    · have hb : 0 ∈ b := (List.mem_cons.1 h).resolve_left fun h0 => hc h0.symm
      have hrest := ih hb
      rw [cString, cString] at hrest
      simp only [hc, ne_eq, not_false_eq_true, decide_true, if_true, hrest]

theorem ifnameOf_attr (a : Attr) (x : Bytes) :
    ifnameOf (a.bytes ++ x) = if a.type = iflaIfname then some (cString a.payload) else none := by
  rw [ifnameOf, type_attr, payload_attr]
  split_ifs with htype
  · rw [cString_append (a.terminated htype)]
  · rfl

theorem operstateOf_attr (a : Attr) (x : Bytes) :
    operstateOf (a.bytes ++ x) = if a.type = iflaOperstate then a.payload.head?.map UInt8.toNat else none := by
  have hlen : read16 (a.bytes ++ x) 0 = 4 + a.payload.length := by
    rw [Attr.bytes, List.append_assoc]
    exact read16_le16 a.length_lt [] _
  rw [operstateOf, type_attr, hlen, Nat.add_sub_cancel_left]
  cases hpayload : a.payload with
  | nil => simp
  | cons c payload =>
    have hbyte : byteAt (a.bytes ++ x) 4 = c.toNat := by
      rw [Attr.bytes, hpayload]
      rfl
    rw [hbyte]
    -- a payload of one byte is enough
    simp

/-- The header of a message. -/
def Message.header (m : Message) : Bytes := le32 (16 + m.notice.body.length) ++ (le16 m.notice.type ++ m.control)

theorem Message.bytes_eq (m : Message) : m.bytes = m.header ++ m.notice.body := by
  rw [bytes, header, List.append_assoc, List.append_assoc]

theorem Message.length_header (m : Message) : m.header.length = 16 := by
  rw [header, List.length_append, List.length_append, m.control_length]
  rfl

theorem Message.length_bytes (m : Message) : m.bytes.length = 16 + m.notice.body.length := by
  rw [m.bytes_eq, List.length_append, m.length_header]

theorem Message.len_eq (m : Message) (x : Bytes) : read32 (m.bytes ++ x) 0 = 16 + m.notice.body.length := by
  rw [bytes, List.append_assoc]
  exact read32_le32 m.length_lt [] _

theorem Notice.type_lt (n : Notice) : n.type < 2 ^ 16 := by
  cases n with
  | newLink l => exact (by decide : rtmNewlink < 2 ^ 16)
  | delLink l => exact (by decide : rtmDellink < 2 ^ 16)
  | newAddr a => exact (by decide : rtmNewaddr < 2 ^ 16)
  | delAddr a => exact (by decide : rtmDeladdr < 2 ^ 16)
  | other type body h => exact h.1

theorem Message.type_eq (m : Message) (x : Bytes) : read16 (m.bytes ++ x) 4 = m.notice.type := by
  rw [bytes, List.append_assoc, List.append_assoc]
  exact read16_le16 m.notice.type_lt (le32 _) _

theorem whole_message (m : Message) : nlmsg.Whole m.bytes where
  header := by
    rw [m.length_bytes]
    exact Nat.le_add_right _ _
  len := by
    have hlen := m.len_eq []
    rw [List.append_nil] at hlen
    exact hlen.trans m.length_bytes.symm

section Links

variable {m : Message} {l : Link}

/-- What is read of the attributes of a link. -/
theorem map_attributes (hbody : m.notice.body = l.bytes) {γ : Type} (f : Bytes → γ) (g : Attr → γ)
    (hf : ∀ a x, f (a.bytes ++ x) = g a) (x : Bytes) : (attributes (m.bytes ++ x)).map f = l.attrs.map g := by
  -- what is before the attributes has the 32 bytes that the walk skips
  have hpre : (m.header ++ (l.front ++ (le32 l.flags ++ l.change))).length = 32 := by
    rw [List.length_append, List.length_append, List.length_append, m.length_header, l.front_length, l.change_length]
    rfl
  have hsplit : m.bytes ++ x = (m.header ++ (l.front ++ (le32 l.flags ++ l.change))) ++
      (rtattr.stream 0 (l.attrs.map Attr.bytes) ++ x) := by
    rw [m.bytes_eq, hbody, Link.bytes]
    simp only [List.append_assoc]
  have hlen : read32 (m.bytes ++ x) 0 - 32 = (rtattr.stream 0 (l.attrs.map Attr.bytes)).length := by
    rw [m.len_eq, ← m.length_bytes, m.bytes_eq, hbody, Link.bytes]
    simp only [List.length_append, m.length_header, l.front_length, l.change_length, length_le32]
    omega
  have hdrop : (m.bytes ++ x).drop 32 = rtattr.stream 0 (l.attrs.map Attr.bytes) ++ x := by
    rw [hsplit]
    exact List.drop_left' hpre
  have hwhole : ∀ r ∈ l.attrs.map Attr.bytes, rtattr.Whole r := by
    intro r hr
    obtain ⟨a, -, rfl⟩ := List.mem_map.1 hr
    exact whole_attr a
  have hlocal : ∀ r ∈ l.attrs.map Attr.bytes, ∀ x, f (r ++ x) = f r := by
    intro r hr x
    obtain ⟨a, -, rfl⟩ := List.mem_map.1 hr
    have hself := hf a []
    rw [List.append_nil] at hself
    exact (hf a x).trans hself.symm
  have hwalk := Records.map_walk_stream hwhole 0 (Records.not_ok_zero x) f hlocal
    (Records.length_le_stream hwhole 0)
  rw [Nat.add_zero] at hwalk
  rw [attributes, hlen, hdrop, hwalk, List.map_map]
  refine List.map_congr_left fun a _ => ?_
  have hself := hf a []
  rw [List.append_nil] at hself
  exact hself

theorem findSome_attributes (hbody : m.notice.body = l.bytes) {γ : Type} (f : Bytes → Option γ)
    (g : Attr → Option γ) (hf : ∀ a x, f (a.bytes ++ x) = g a) (x : Bytes) :
    (attributes (m.bytes ++ x)).findSome? f = l.attrs.findSome? g := by
  have hmap := map_attributes hbody f g hf x
  have hf' := congrArg (List.findSome? id) hmap
  rw [List.findSome?_map, List.findSome?_map] at hf'
  exact hf'

theorem nlmsgGetIfname_message (hbody : m.notice.body = l.bytes) (x : Bytes) : nlmsgGetIfname (m.bytes ++ x) = l.name :=
  findSome_attributes hbody ifnameOf _ ifnameOf_attr x

theorem nlmsgGetOperstate_message (hbody : m.notice.body = l.bytes) (x : Bytes) :
    nlmsgGetOperstate (m.bytes ++ x) = l.operstate :=
  findSome_attributes hbody operstateOf _ operstateOf_attr x

theorem flags_message (hbody : m.notice.body = l.bytes) (x : Bytes) : read32 (m.bytes ++ x) 24 = l.flags := by
  have hpre : (m.header ++ l.front).length = 24 := by
    rw [List.length_append, m.length_header, l.front_length]
  have hread := read32_le32 l.flags_lt (m.header ++ l.front)
    (l.change ++ (rtattr.stream 0 (l.attrs.map Attr.bytes) ++ x))
  rw [hpre] at hread
  rw [m.bytes_eq, hbody, Link.bytes]
  simpa only [List.append_assoc] using hread

end Links

section Addresses

variable {m : Message} {addr : Addr}

theorem index_message (hbody : m.notice.body = addr.bytes) (x : Bytes) : read32 (m.bytes ++ x) 20 = addr.index := by
  have hpre : (m.header ++ addr.family :: addr.front).length = 20 := by
    rw [List.length_append, m.length_header, List.length_cons, addr.front_length]
  have hread := read32_le32 addr.index_lt (m.header ++ addr.family :: addr.front) (addr.rest ++ x)
  rw [hpre] at hread
  rw [m.bytes_eq, hbody, Addr.bytes]
  simpa only [List.append_assoc, List.cons_append] using hread

theorem family_message (hbody : m.notice.body = addr.bytes) (x : Bytes) :
    byteAt (m.bytes ++ x) 16 = addr.family.toNat := by
  have hbyte := byteAt_append_right m.header (addr.bytes ++ x) 0
  rw [m.length_header] at hbyte
  rw [m.bytes_eq, hbody, List.append_assoc]
  exact hbyte

end Addresses

/-- A message is read as what it means, whatever follows it. -/
theorem handle_message (m : Message) (x : Bytes) (a : Answer) :
    handle family (m.bytes ++ x) a = m.notice.event family a := by
  rw [handle, m.type_eq]
  cases hnotice : m.notice with
  | newLink l =>
    have hbody : m.notice.body = l.bytes := by rw [hnotice, Notice.body]
    change handleRtmNewlink (m.bytes ++ x) a = _
    rw [handleRtmNewlink, nlmsgGetIfname_message hbody, nlmsgGetOperstate_message hbody, flags_message hbody,
      Notice.event]
  | delLink l =>
    have hbody : m.notice.body = l.bytes := by rw [hnotice, Notice.body]
    change handleRtmDellink (m.bytes ++ x) a = _
    rw [handleRtmDellink, nlmsgGetIfname_message hbody, Notice.event]
  | newAddr addr =>
    have hbody : m.notice.body = addr.bytes := by rw [hnotice, Notice.body]
    change handleRtmNewaddr (m.bytes ++ x) a = _
    rw [handleRtmNewaddr, index_message hbody, Notice.event]
  | delAddr addr =>
    have hbody : m.notice.body = addr.bytes := by rw [hnotice, Notice.body]
    change handleRtmDeladdr family (m.bytes ++ x) a = _
    rw [handleRtmDeladdr, family_message hbody, index_message hbody, Notice.event]
    -- an address of the other family is not looked at
    by_cases hfamily : addr.family = family
    · rw [if_neg (not_not_intro (congrArg UInt8.toNat hfamily)), if_pos hfamily]
    · rw [if_pos (fun h => hfamily (UInt8.toNat_inj.1 h)), if_neg hfamily]
  | other type body h =>
    -- no case of the switch
    obtain ⟨-, hnone⟩ := h
    simp only [List.mem_cons, List.not_mem_nil, or_false, not_or] at hnone
    simp [Notice.type, Notice.event, hnone]

/-- The messages of a datagram are its events. -/
theorem eventsOf_datagram (d : Datagram) (answers : Nat → Answer) :
    eventsOf family d.bytes answers = d.messages.zipIdx.filterMap fun (m, k) => m.notice.event family (answers k) := by
  have hwhole : ∀ r ∈ d.messages.map Message.bytes, nlmsg.Whole r := by
    intro r hr
    obtain ⟨m, -, rfl⟩ := List.mem_map.1 hr
    exact whole_message m
  have hmessage (m : Message) (x : Bytes) : handle family (m.bytes ++ x) = fun a => m.notice.event family a := by
    funext a
    exact handle_message family m x a
  have hself (m : Message) : handle family m.bytes = fun a => m.notice.event family a := by
    have h := hmessage m []
    rw [List.append_nil] at h
    exact h
  have hlocal : ∀ r ∈ d.messages.map Message.bytes, ∀ x, handle family (r ++ x) = handle family r := by
    intro r hr x
    obtain ⟨m, -, rfl⟩ := List.mem_map.1 hr
    rw [hmessage, hself]
  have hlen : d.bytes.length = (nlmsg.stream 0 (d.messages.map Message.bytes)).length + d.rest.length := by
    rw [Datagram.bytes, List.length_append]
  have hfuel : (d.messages.map Message.bytes).length ≤ d.bytes.length := by
    rw [hlen]
    exact (Records.length_le_stream hwhole 0).trans (Nat.le_add_right _ _)
  have hwalk := Records.map_walk_stream hwhole 0 d.rest_not_ok (handle family) hlocal hfuel
  have hmap : (messages d.bytes).map (handle family) = d.messages.map fun m a => m.notice.event family a := by
    rw [messages]
    nth_rewrite 2 [hlen]
    rw [Datagram.bytes] at hwalk ⊢
    rw [hwalk, List.map_map]
    exact List.map_congr_left fun m _ => hself m
  rw [eventsOf, hmap, List.zipIdx_map, List.filterMap_map]
  rfl

/-- A message that was cut short is not read; those before it are. -/
theorem eventsOf_cut (ms : List Message) (m : Message) {n : Nat} (hn : n < m.bytes.length) (answers : Nat → Answer) :
    eventsOf family (nlmsg.stream 0 (ms.map Message.bytes) ++ m.bytes.take n) answers =
      ms.zipIdx.filterMap fun (m, k) => m.notice.event family (answers k) :=
  eventsOf_datagram family ⟨ms, m.bytes.take n, (whole_message m).not_ok hn⟩ answers

/-- Every message that is visited lies within the datagram, and every attribute within its
    message; and the walk came to its end, as more rounds bring nothing. -/
structure Visits (buf : Bytes) : Prop where
  enough : ∀ fuel, buf.length ≤ fuel → nlmsg.walk fuel buf.length buf = messages buf
  messages : ∀ nh ∈ messages buf, ∃ k, nh = buf.drop k ∧ 16 ≤ read32 nh 0 ∧ k + read32 nh 0 ≤ buf.length
  attributes : ∀ nh ∈ Netlink.messages buf, ∀ rta ∈ attributes nh,
    ∃ k, rta = nh.drop (32 + k) ∧ 4 ≤ read16 rta 0 ∧ 32 + k + read16 rta 0 ≤ read32 nh 0

theorem visits (buf : Bytes) : Visits buf where
  enough fuel hfuel := Records.walk_enough hfuel (Nat.le_refl _) buf
  messages nh hnh := Records.within_of_mem_walk hnh
  attributes nh hnh rta hrta := by
    obtain ⟨k, rfl, hheader, hle⟩ := Records.within_of_mem_walk hrta
    have hpos : 4 ≤ rtattr.len ((nh.drop 32).drop k) := hheader
    refine ⟨k, List.drop_drop .., hheader, ?_⟩
    change 32 + k + rtattr.len ((nh.drop 32).drop k) ≤ read32 nh 0
    omega

/-- Whatever is received, nothing is visited that was not; and where it is what a kernel sends,
    also in parts, the paths see just the events that its messages mean, each once and in order. -/
theorem netlink_exact (s : LinuxPaths) :
    (∀ buf, Visits buf) ∧
      ∀ recvs : List (Datagram × (Nat → Answer)),
        onNetlinkEvent family s (recvs.map fun r => (r.1.bytes, r.2)) =
          s.run (recvs.flatMap fun r => r.1.messages.zipIdx.filterMap fun (m, k) => m.notice.event family (r.2 k)) := by
  refine ⟨visits, fun recvs => ?_⟩
  induction recvs generalizing s with
  | nil => rfl
  | cons r recvs ih =>
    rw [List.map_cons, List.flatMap_cons, LinuxPaths.run, List.foldl_append, onNetlinkEvent, List.foldl_cons,
      eventsOf_datagram]
    exact ih _

end Mqvpn.Netlink
