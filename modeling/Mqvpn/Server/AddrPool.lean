import Mqvpn.Lib.Text
import Mathlib.Data.List.Lemmas
import Mathlib.Logic.Function.Basic

/-!
# The address pool of the server

A pool hands out the addresses of an IPv4 subnet by their offset from the address in
the configuration, and for each of them the IPv6 address with the same offset, if it
has an IPv6 subnet. Addresses are numbers in host order; the arithmetic on them is
that of 32-bit words.
-/

namespace Mqvpn

/-- `mqvpn_addr_pool_t`; the IPv6 fields count only if there is an IPv6 subnet. -/
structure AddrPool where
  base : Nat
  prefixLen : Nat
  poolSize : Nat
  next : Nat := 2
  used : Nat → Bool := fun _ => false
  hasV6 : Bool := false
  base6 : Nat := 0
  prefix6 : Nat := 0

namespace AddrPool

/-! ## Configuration -/

/-- `MQVPN_ADDR_POOL_MAX` -/
def poolMax : Nat := 254

/-- What stands before and after the first slash of a text, in a buffer that holds so
    many bytes. -/
def splitCidr (bufSize : Nat) (cidr : List Char) : Option (List Char × List Char) :=
  let buf := cidr.take (bufSize - 1)
  match buf.dropWhile (· ≠ '/') with
  | [] => none
  | _ :: rest => some (buf.takeWhile (· ≠ '/'), rest)

/-- A prefix length in a range, which is the whole text. -/
def parsePrefix (text : List Char) (lo hi : Int) : Option Nat :=
  match Text.strtol text with
  | some (n, []) => if lo ≤ n ∧ n ≤ hi then some n.toNat else none
  | _ => none

/-- `mqvpn_addr_pool_init` -/
def init (cidr : List Char) : Option AddrPool :=
  match splitCidr 32 cidr with
  | none => none
  | some (addr, len) =>
    match parsePrefix len 0 32, Text.inetPton4 addr with
    | some prefixLen, some base =>
      if prefixLen < 16 ∨ 30 < prefixLen then none
      else some { base, prefixLen, poolSize := min poolMax (2 ^ (32 - prefixLen) - 2) }
    | _, _ => none

/-- `mqvpn_addr_pool_init6` -/
def init6 (p : AddrPool) (cidr6 : List Char) : Option AddrPool :=
  match splitCidr 64 cidr6 with
  | none => none
  | some (addr, len) =>
    match parsePrefix len 96 126, Text.inetPton6 addr with
    | some prefix6, some base6 => some { p with base6, prefix6, hasV6 := true }
    | _, _ => none

/-! ## Operations -/

variable (p : AddrPool)

/-- The address at an offset. -/
def addr (off : Nat) : Nat := (p.base + off) % 2 ^ 32

/-- The offset of an address, as the server computes it. -/
def offset (addr : Nat) : Nat := (addr + 2 ^ 32 - p.base) % 2 ^ 32

/-- The offsets in the order in which `mqvpn_addr_pool_alloc` looks at them. -/
def scan : List Nat := (List.range p.poolSize).map fun i => (p.next - 1 + i) % p.poolSize + 1

/-- The offset that `mqvpn_addr_pool_alloc` takes: the first that is neither that of the
    server nor in use. -/
def freeOffset : Option Nat := p.scan.find? fun off => off ≠ 1 ∧ p.used off = false

/-- `mqvpn_addr_pool_alloc` -/
def alloc : Option (AddrPool × Nat) :=
  p.freeOffset.map fun off =>
    ({ p with used := Function.update p.used off true, next := off + 1 }, p.addr off)

/-- The offset may be taken. -/
def Vacant (off : Nat) : Prop := 2 ≤ off ∧ off ≤ p.poolSize ∧ p.used off = false

instance (off : Nat) : Decidable (p.Vacant off) := inferInstanceAs (Decidable (_ ∧ _))

/-- `mqvpn_addr_pool_alloc_at` -/
def allocAt (off : Nat) : Option (AddrPool × Nat) :=
  if p.Vacant off then some ({ p with used := Function.update p.used off true }, p.addr off) else none

/-- `mqvpn_addr_pool_release` -/
def release (addr : Nat) : AddrPool :=
  if addr < p.base then p
  else
    let off := addr - p.base
    if 1 ≤ off ∧ off ≤ p.poolSize then { p with used := Function.update p.used off false } else p

/-- `mqvpn_addr_pool_get6`: the offset is added to the low 32 bits. -/
def get6 (off : Nat) : Nat := p.base6 / 2 ^ 32 * 2 ^ 32 + (p.base6 % 2 ^ 32 + off) % 2 ^ 32

/-- `mqvpn_addr_pool_offset6` -/
def offset6 (addr : Nat) : Nat :=
  if addr / 2 ^ 32 ≠ p.base6 / 2 ^ 32 then 0
  else if addr % 2 ^ 32 < p.base6 % 2 ^ 32 then 0
  else addr % 2 ^ 32 - p.base6 % 2 ^ 32

/-! ## What the operations do -/

variable {p} {q : AddrPool} {a off : Nat}

/-- The offset that is taken was vacant. -/
theorem vacant_of_freeOffset (h : p.freeOffset = some off) : p.Vacant off := by
  have hprop := List.find?_some h
  obtain ⟨i, hi, rfl⟩ := List.mem_map.1 (List.mem_of_find?_eq_some h)
  have hsize : 0 < p.poolSize := Nat.lt_of_le_of_lt (Nat.zero_le i) (List.mem_range.1 hi)
  have hlt := Nat.mod_lt (p.next - 1 + i) hsize
  simp only [ne_eq, decide_eq_true_eq] at hprop
  refine ⟨?_, ?_, hprop.2⟩ <;> omega

/-- An allocation takes a vacant offset. -/
theorem alloc_spec (h : p.alloc = some (q, a)) :
    ∃ off, p.freeOffset = some off ∧ p.Vacant off ∧ a = p.addr off ∧
      q = { p with used := Function.update p.used off true, next := off + 1 } := by
  obtain ⟨off, hoff, heq⟩ := Option.map_eq_some_iff.1 h
  cases heq
  exact ⟨off, hoff, vacant_of_freeOffset hoff, rfl, rfl⟩

theorem allocAt_spec (h : p.allocAt off = some (q, a)) :
    p.Vacant off ∧ a = p.addr off ∧ q = { p with used := Function.update p.used off true } := by
  rw [allocAt] at h
  split_ifs at h with hv
  cases h
  exact ⟨hv, rfl, rfl⟩

/-- A release frees at most the offset of the address. -/
theorem release_eq (p : AddrPool) (a : Nat) :
    p.release a = p ∨ ∃ off, 1 ≤ off ∧ off ≤ p.poolSize ∧ a = p.base + off ∧
      p.release a = { p with used := Function.update p.used off false } := by
  rw [release]
  split_ifs with hlt
  · exact .inl rfl
  · dsimp only
    split_ifs with hoff
    · exact .inr ⟨a - p.base, hoff.1, hoff.2, by omega, rfl⟩
    · exact .inl rfl

end AddrPool

end Mqvpn
