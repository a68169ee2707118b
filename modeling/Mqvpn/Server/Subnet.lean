import Mqvpn.Server.AddrPool
import Mqvpn.Lib.Runs

/-!
# The addresses of a pool and its subnets

The addresses that a pool hands out are to be hosts of its IPv4 subnet, with IPv6
addresses in its IPv6 subnet, and to lead back to their offsets (`InSubnets`). The
pool does not check that: it adds an offset to the address in the configuration,
whatever its host bits are, and the offset may be as large as the IPv4 subnet allows,
however small the IPv6 subnet is. Whether the addresses are in their subnets is
decided by the largest offset alone (`inSubnets_iff`).
-/

namespace Mqvpn.AddrPool

variable {p q : AddrPool} {k : Nat}

/-! ## The offsets that are handed out -/

/-- A call of the pool. -/
inductive Op
  | alloc
  | allocAt (off : Nat)
  | release (addr : Nat)

def step (p : AddrPool) : Op → AddrPool
  | .alloc => (p.alloc.map Prod.fst).getD p
  | .allocAt off => ((p.allocAt off).map Prod.fst).getD p
  | .release addr => p.release addr

def run (p : AddrPool) (ops : List Op) : AddrPool := ops.foldl step p

/-- Some calls lead to one that hands out the offset. -/
def HandsOut (p : AddrPool) (off : Nat) : Prop :=
  ∃ ops, (p.run ops).freeOffset = some off ∨ (p.run ops).Vacant off

theorem poolSize_step (p : AddrPool) (op : Op) : (p.step op).poolSize = p.poolSize := by
  cases op with
  | alloc =>
    rw [step]
    cases h : p.alloc with
    | none => rfl
    | some r =>
      obtain ⟨off, -, -, -, hq⟩ := alloc_spec (q := r.1) (a := r.2) h
      change r.1.poolSize = p.poolSize
      rw [hq]
  | allocAt off =>
    rw [step]
    cases h : p.allocAt off with
    | none => rfl
    | some r =>
      obtain ⟨-, -, hq⟩ := allocAt_spec (q := r.1) (a := r.2) h
      change r.1.poolSize = p.poolSize
      rw [hq]
  | release addr =>
    rcases release_eq p addr with h | ⟨off, -, -, -, h⟩ <;> rw [step, h]

theorem poolSize_run (p : AddrPool) (ops : List Op) : (p.run ops).poolSize = p.poolSize := by
  induction ops generalizing p with
  | nil => rfl
  | cons op ops ih => exact (ih (p.step op)).trans (poolSize_step p op)

/-- A pool with nothing in use can hand out all its offsets but that of the server. -/
theorem handsOut_iff (hused : ∀ off, p.used off = false) : p.HandsOut k ↔ 2 ≤ k ∧ k ≤ p.poolSize := by
  constructor
  · rintro ⟨ops, h⟩
    have hvacant : (p.run ops).Vacant k := h.elim vacant_of_freeOffset id
    exact ⟨hvacant.1, poolSize_run p ops ▸ hvacant.2.1⟩
  · intro h
    exact ⟨[], .inr ⟨h.1, h.2, hused k⟩⟩

/-! ## The subnets -/

/-- The number of addresses of the IPv4 subnet. -/
def netSize (p : AddrPool) : Nat := 2 ^ (32 - p.prefixLen)

/-- The number of addresses of the IPv6 subnet. -/
def netSize6 (p : AddrPool) : Nat := 2 ^ (128 - p.prefix6)

/-- The address is in the IPv4 subnet, and is neither the first nor the last there. -/
def IsHost (p : AddrPool) (addr : Nat) : Prop :=
  addr / p.netSize = p.base / p.netSize ∧ addr % p.netSize ≠ 0 ∧ addr % p.netSize ≠ p.netSize - 1

/-- The address is in the IPv6 subnet. -/
def InPrefix6 (p : AddrPool) (addr : Nat) : Prop := addr / p.netSize6 = p.base6 / p.netSize6

/-- The addresses that are handed out are in the subnets, and the packets to them are
    those of their offset. -/
def InSubnets (p : AddrPool) : Prop :=
  ∀ k, p.HandsOut k →
    p.IsHost (p.addr k) ∧ p.offset (p.addr k) = k ∧ p.InPrefix6 (p.get6 k) ∧ p.offset6 (p.get6 k) = k

/-- The largest offset stays below the last address of the IPv4 subnet, and in the
    IPv6 subnet. -/
def Fits (p : AddrPool) : Prop :=
  p.base % p.netSize + p.poolSize ≤ p.netSize - 2 ∧ p.base6 % p.netSize6 + p.poolSize < p.netSize6

instance (p : AddrPool) : Decidable p.Fits := inferInstanceAs (Decidable (_ ∧ _))

/-! ## A configuration that is accepted -/

/-- What is known of a pool from its configuration. -/
structure Configured (p : AddrPool) : Prop where
  base_lt : p.base < 2 ^ 32
  prefixLen : 16 ≤ p.prefixLen ∧ p.prefixLen ≤ 30
  poolSize : p.poolSize = min poolMax (p.netSize - 2)
  used : ∀ off, p.used off = false

theorem parsePrefix_range {text : List Char} {lo hi : Int} {n : Nat}
    (h : parsePrefix text lo hi = some n) (hlo : 0 ≤ lo) : lo ≤ n ∧ n ≤ hi := by
  rw [parsePrefix] at h
  split at h
  · split_ifs at h with hrange
    cases h
    omega
  · cases h

theorem configured_init {cidr : List Char} (h : init cidr = some p) : p.Configured := by
  rw [init] at h
  split at h
  · cases h
  · split at h
    · rename_i base hlen hbase
      split_ifs at h with hrange
      cases h
      exact ⟨Text.inetPton4_lt hbase, ⟨by dsimp only; omega, by dsimp only; omega⟩, rfl, fun _ => rfl⟩
    · cases h

theorem init6_spec {cidr6 : List Char} (h : p.init6 cidr6 = some q) :
    ∃ base6 prefix6, 96 ≤ prefix6 ∧ prefix6 ≤ 126 ∧ q = { p with base6, prefix6, hasV6 := true } := by
  rw [init6] at h
  split at h
  · cases h
  · split at h
    · rename_i prefix6 base6 hlen hbase
      cases h
      have hrange := parsePrefix_range hlen (by decide)
      exact ⟨base6, prefix6, by omega, by omega, rfl⟩
    · cases h

/-! ## The arithmetic of the subnets -/

/-- The block of a sum, in blocks of `M`. -/
theorem add_div_block {M : Nat} (hM : 0 < M) (b k : Nat) : (b + k) / M = b / M + (b % M + k) / M := by
  conv_lhs => rw [← Nat.div_add_mod b M, Nat.add_assoc, Nat.mul_add_div hM]

theorem add_div_eq_iff {M : Nat} (hM : 0 < M) (b k : Nat) : (b + k) / M = b / M ↔ b % M + k < M := by
  rw [add_div_block hM, Nat.add_eq_left, Nat.div_eq_zero_iff]
  omega

/-- With addresses modulo `M * N`, a sum can also come back to the first block. -/
theorem add_mod_div_eq_iff {M N b k : Nat} (hN : 2 ≤ N) (hb : b < M * N) (hk : k < M) :
    (b + k) % (M * N) / M = b / M ↔ b % M + k < M := by
  have hM : 0 < M := by omega
  have hquot : b / M < N := Nat.div_lt_of_lt_mul hb
  have hmod := Nat.mod_lt b hM
  rw [Nat.mod_mul_right_div_self, add_div_block hM]
  by_cases hlt : b % M + k < M
  · rw [Nat.div_eq_of_lt hlt, Nat.add_zero, Nat.mod_eq_of_lt hquot]
    exact iff_of_true rfl hlt
  · have hone : (b % M + k) / M = 1 := Nat.div_eq_of_lt_le (by omega) (by omega)
    rw [hone]
    refine iff_of_false (fun heq => ?_) hlt
    rcases Nat.lt_or_ge (b / M + 1) N with hl | hg
    · rw [Nat.mod_eq_of_lt hl] at heq
      omega
    · rw [show b / M + 1 = N by omega, Nat.mod_self] at heq
      omega

theorem offset_addr (hbase : p.base < 2 ^ 32) (hk : k < 2 ^ 32) : p.offset (p.addr k) = k := by
  rw [offset, addr]
  omega

/-- The IPv6 address leads back to its offset unless the low 32 bits overflow. -/
theorem offset6_get6_iff (hk : 0 < k) (hk' : k < 2 ^ 32) :
    p.offset6 (p.get6 k) = k ↔ p.base6 % 2 ^ 32 + k < 2 ^ 32 := by
  rw [offset6, get6]
  have hhigh : (p.base6 / 2 ^ 32 * 2 ^ 32 + (p.base6 % 2 ^ 32 + k) % 2 ^ 32) / 2 ^ 32 = p.base6 / 2 ^ 32 := by
    omega
  rw [hhigh, if_neg (by simp)]
  split_ifs with hlow <;> omega

/-- The address at an offset is a host as long as a last address is left above it. -/
theorem Configured.isHost_iff (h : p.Configured) (hk : 0 < k) (hk' : k < p.netSize) :
    p.IsHost (p.addr k) ↔ p.base % p.netSize + k + 1 < p.netSize := by
  have hsplit : (2 : Nat) ^ 32 = p.netSize * 2 ^ p.prefixLen := by
    have := h.prefixLen
    rw [netSize, ← Nat.pow_add, show 32 - p.prefixLen + p.prefixLen = 32 by omega]
  have hN : 2 ≤ 2 ^ p.prefixLen := Nat.le_self_pow (by have := h.prefixLen; omega) 2
  have hblock := add_mod_div_eq_iff hN (hsplit ▸ h.base_lt) hk'
  rw [← hsplit] at hblock
  have hmod : p.base % p.netSize + k < p.netSize →
      (p.base + k) % 2 ^ 32 % p.netSize = p.base % p.netSize + k := by
    intro hlt
    rw [Nat.mod_mod_of_dvd _ ⟨_, hsplit⟩, Nat.add_mod, Nat.mod_eq_of_lt hk', Nat.mod_eq_of_lt hlt]
  rw [IsHost, addr, hblock]
  constructor
  · rintro ⟨hlt, -, hlast⟩
    rw [hmod hlt] at hlast
    omega
  · intro hlt
    rw [hmod (by omega)]
    omega

/-- The IPv6 address at an offset is in the subnet and leads back to the offset, as long
    as the subnet reaches that far. -/
theorem inPrefix6_and_offset6_iff (hlen : 96 ≤ p.prefix6) (hk : 0 < k) (hk' : k < 2 ^ 32) :
    p.InPrefix6 (p.get6 k) ∧ p.offset6 (p.get6 k) = k ↔ p.base6 % p.netSize6 + k < p.netSize6 := by
  have hdvd : p.netSize6 ∣ 2 ^ 32 := Nat.pow_dvd_pow 2 (by omega)
  have hpos : 0 < p.netSize6 := Nat.two_pow_pos _
  have hiff := add_div_eq_iff hpos p.base6 k
  have hhost : p.base6 % p.netSize6 = p.base6 % 2 ^ 32 % p.netSize6 := (Nat.mod_mod_of_dvd _ hdvd).symm
  have hget : p.base6 % 2 ^ 32 + k < 2 ^ 32 → p.get6 k = p.base6 + k := by
    intro hlow
    rw [get6, Nat.mod_eq_of_lt hlow]
    omega
  rw [offset6_get6_iff hk hk', InPrefix6]
  constructor
  · rintro ⟨hinside, hlow⟩
    rw [hget hlow] at hinside
    exact hiff.1 hinside
  · intro hlt
    have hlow : p.base6 % 2 ^ 32 + k < 2 ^ 32 := by
      obtain ⟨c, hc⟩ := hdvd
      have hquot : p.base6 % 2 ^ 32 / p.netSize6 < c := Nat.div_lt_of_lt_mul (hc ▸ Nat.mod_lt _ (by decide))
      have hdecomp := Nat.div_add_mod' (p.base6 % 2 ^ 32) p.netSize6
      have hend : (p.base6 % 2 ^ 32 / p.netSize6 + 1) * p.netSize6 ≤ c * p.netSize6 :=
        Nat.mul_le_mul_right _ hquot
      rw [Nat.mul_comm c, ← hc, Nat.succ_mul] at hend
      omega
    exact ⟨hget hlow ▸ hiff.2 hlt, hlow⟩

/-! ## All the offsets -/

theorem Configured.poolSize_bounds (h : p.Configured) :
    2 ≤ p.poolSize ∧ p.poolSize ≤ 254 ∧ p.poolSize + 2 ≤ p.netSize := by
  have hbits : 2 ≤ 32 - p.prefixLen := by
    have := h.prefixLen
    omega
  have hnet : 2 ^ 2 ≤ p.netSize := Nat.pow_le_pow_right Nat.two_pos hbits
  have hsize := h.poolSize
  rw [poolMax] at hsize
  omega

theorem Configured.fits_of_inSubnets (h : p.Configured) (hlen : 96 ≤ p.prefix6) (hin : p.InSubnets) : p.Fits := by
  obtain ⟨hlo, hhi, hnet⟩ := h.poolSize_bounds
  obtain ⟨hhost, -, hinside, hoffset⟩ := hin p.poolSize ((handsOut_iff h.used).2 ⟨hlo, Nat.le_refl _⟩)
  have h4 := (h.isHost_iff (by omega) (by omega)).1 hhost
  have h6 := (inPrefix6_and_offset6_iff hlen (by omega) (by omega)).1 ⟨hinside, hoffset⟩
  exact ⟨by omega, h6⟩

theorem Configured.inSubnets_of_fits (h : p.Configured) (hlen : 96 ≤ p.prefix6) (hfits : p.Fits) : p.InSubnets := by
  intro k hk
  obtain ⟨hk, hk'⟩ := (handsOut_iff h.used).1 hk
  obtain ⟨h4, h6⟩ := hfits
  obtain ⟨hlo, hhi, hnet⟩ := h.poolSize_bounds
  have hhost := (h.isHost_iff (k := k) (by omega) (by omega)).2 (by omega)
  have hinside := (inPrefix6_and_offset6_iff (p := p) (k := k) hlen (by omega) (by omega)).2 (by omega)
  exact ⟨hhost, offset_addr h.base_lt (by omega), hinside⟩

theorem configured_init6 (cidr cidr6 : List Char) (h : init cidr = some p) (h6 : p.init6 cidr6 = some q) :
    q.Configured ∧ 96 ≤ q.prefix6 := by
  have hp := configured_init h
  obtain ⟨base6, prefix6, hlo, -, rfl⟩ := init6_spec h6
  exact ⟨⟨hp.base_lt, hp.prefixLen, hp.poolSize, hp.used⟩, hlo⟩

/-- For every pair of subnets that is accepted, the addresses that are handed out are
    hosts of their subnets and lead back to their offsets if and only if those with
    the largest offset fit into the subnets. -/
theorem inSubnets_iff (cidr cidr6 : List Char) (h : init cidr = some p) (h6 : p.init6 cidr6 = some q) :
    q.InSubnets ↔ q.Fits := by
  obtain ⟨hq, hlen⟩ := configured_init6 cidr cidr6 h h6
  exact ⟨hq.fits_of_inSubnets hlen, hq.inSubnets_of_fits hlen⟩

theorem inSubnets_sample :
    ∃ p q, init "10.0.0.0/24".toList = some p ∧ p.init6 "fd00::/112".toList = some q ∧ q.InSubnets :=
  ⟨_, _, rfl, rfl, (inSubnets_iff "10.0.0.0/24".toList "fd00::/112".toList rfl rfl).2 (by decide)⟩

/-- With a host address in the configuration, the last address of the subnet is handed
    out; and with a small IPv6 subnet, addresses outside of it. -/
theorem not_inSubnets :
    (∃ p q, init "10.0.0.1/24".toList = some p ∧ p.init6 "fd00::/112".toList = some q ∧ ¬q.InSubnets) ∧
      ∃ p q, init "10.0.0.0/24".toList = some p ∧ p.init6 "fd00::/126".toList = some q ∧ ¬q.InSubnets := by
  refine ⟨⟨_, _, rfl, rfl, fun hin => ?_⟩, ⟨_, _, rfl, rfl, fun hin => ?_⟩⟩
  · obtain ⟨hq, hlen⟩ := configured_init6 "10.0.0.1/24".toList "fd00::/112".toList rfl rfl
    exact absurd (hq.fits_of_inSubnets hlen hin) (by decide)
  · obtain ⟨hq, hlen⟩ := configured_init6 "10.0.0.0/24".toList "fd00::/126".toList rfl rfl
    exact absurd (hq.fits_of_inSubnets hlen hin) (by decide)

end Mqvpn.AddrPool
