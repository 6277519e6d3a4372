import Mathlib.Data.BitVec
import Mathlib.Tactic.Ring

/-!
# Addresses and prefixes of `net/netip`

An address is the zero value, a 32-bit IPv4 value or a 128-bit IPv6 value with
its zone; the sixteen bytes of the Go array are read big-endian, so that the
byte order of Go's comparison is the numeric order here. A prefix carries the
proofs that its length fits its address and that the address has no zone, which
`PrefixFrom` drops. On IPv4 prefixes the bit test of `Contains` is characterised
as membership in one interval of numbers.
-/

namespace Veld.Netip

/-- A `netip.Addr`; the zero value is the invalid address. -/
inductive Addr
  | zero
  | v4 (bits : BitVec 32)
  | v6 (bits : BitVec 128) (zone : String)
  deriving DecidableEq, Repr

namespace Addr

/-- Every address but the zero value is valid. -/
def isValid : Addr → Bool
  | zero => false
  | _ => true

/-- The number of address bits, 0 for the zero value. -/
def bitLen : Addr → Nat
  | zero => 0
  | v4 _ => 32
  | v6 _ _ => 128

/-- The zone of an IPv6 address, empty for any other address. -/
def zone : Addr → String
  | v6 _ z => z
  | _ => ""

/-- The mapped form `::ffff:a.b.c.d`: the upper 96 bits are `0xffff`. -/
def is4In6 : Addr → Bool
  | v6 b _ => b.extractLsb' 32 96 == 0xffff#96
  | _ => false

/-- A mapped IPv4 address loses its prefix, any other address is unchanged. -/
def unmap : Addr → Addr
  | v6 b z => if is4In6 (v6 b z) then v4 (b.extractLsb' 0 32) else v6 b z
  | a => a

/-- The following address, the zero value after the last one. -/
def next : Addr → Addr
  | zero => zero
  | v4 b => if b + 1 = 0 then zero else v4 (b + 1)
  | v6 b z => if b + 1 = 0 then zero else v6 (b + 1) z

/-- Shorter addresses come first, then the numeric order, then the zone. -/
def compare : Addr → Addr → Ordering
  | v4 a, v4 b => Ord.compare a.toNat b.toNat
  | v6 a z, v6 b w => (Ord.compare a.toNat b.toNat).then (Ord.compare z w)
  | a, b => Ord.compare a.bitLen b.bitLen

/-- `0.0.0.0` or `::` without a zone. -/
def isUnspecified : Addr → Bool
  | zero => false
  | v4 b => b = 0
  | v6 b z => b = 0 && z = ""

/-- `224.0.0.0/4`, also in its mapped form, or `ff00::/8`. -/
def isMulticast (a : Addr) : Bool :=
  match a.unmap with
  | zero => false
  | v4 b => b.extractLsb' 28 4 == 0xe#4
  | v6 b _ => b.extractLsb' 120 8 == 0xff#8

theorem compare_self (a : Addr) : a.compare a = .eq := by
  cases a <;> simp [compare]

theorem next_v4 {b : BitVec 32} (h : b.toNat + 1 < 2 ^ 32) :
    next (v4 b) = v4 (BitVec.ofNat 32 (b.toNat + 1)) := by
  have hn : (b + 1).toNat = b.toNat + 1 := by
    rw [BitVec.toNat_add]
    exact Nat.mod_eq_of_lt h
  have hz : b + 1 ≠ 0 := by
    intro he
    rw [he] at hn
    simp at hn
  have he : b + 1 = BitVec.ofNat 32 (b.toNat + 1) := by
    apply BitVec.eq_of_toNat_eq
    rw [hn, BitVec.toNat_ofNat, Nat.mod_eq_of_lt h]
  rw [next, if_neg hz, he]

end Addr

/-- A `netip.AddrPort`. -/
structure AddrPort where
  addr : Addr := .zero
  port : UInt16 := 0
  deriving DecidableEq, Repr

/-- An endpoint is valid when its address is. -/
def AddrPort.isValid (ep : AddrPort) : Bool := ep.addr.isValid

/-- A `netip.Prefix`; the one over the zero address is the invalid prefix. -/
@[ext] structure Prefix where
  /-- The address the prefix was written with, not necessarily masked. -/
  ip : Addr
  /-- The number of leading bits that matter. -/
  bits : Nat
  /-- The length never exceeds the address. -/
  fits : bits ≤ ip.bitLen
  /-- A prefix has no zone. -/
  zoneless : ip.zone = ""
  deriving DecidableEq, Repr

namespace Prefix

/-- Only the prefix over the zero address is invalid. -/
def isValid (p : Prefix) : Bool := p.ip.isValid

/-- The invalid prefix, which `ParsePrefix` returns beside an error. -/
def zero : Prefix := ⟨.zero, 0, Nat.le_refl 0, rfl⟩

/-- Equal leading bits within one address family; a zone is in no prefix. -/
def contains (p : Prefix) (a : Addr) : Bool :=
  match p.ip, a with
  | .v4 q, .v4 b => (b ^^^ q) >>> (32 - p.bits) == 0
  | .v6 q _, .v6 b z => z == "" && (b ^^^ q) >>> (128 - p.bits) == 0
  | _, _ => false

/-- The network address: everything below the prefix length cleared. -/
def masked (p : Prefix) : Prefix :=
  match p with
  | ⟨.zero, n, h, hz⟩ => ⟨.zero, n, h, hz⟩
  | ⟨.v4 q, n, h, hz⟩ => ⟨.v4 ((q >>> (32 - n)) <<< (32 - n)), n, h, hz⟩
  | ⟨.v6 q z, n, h, hz⟩ => ⟨.v6 ((q >>> (128 - n)) <<< (128 - n)) z, n, h, hz⟩

/-- The addresses a loop from one address upwards visits while its condition holds. -/
def upFrom (cond : Addr → Bool) : Nat → Addr → List Addr
  | 0, _ => []
  | fuel + 1, a => if cond a then a :: upFrom cond fuel a.next else []

/-- The addresses visited by `for a := first; p.Contains(a.Next()); a = a.Next()` from the address
after the network address. An address family ends after as many steps as it has addresses. -/
def hosts (p : Prefix) : List Addr :=
  upFrom (fun a => p.contains a.next) (2 ^ p.ip.bitLen) p.masked.ip.next

/-- An IPv4 prefix with room for hosts between its network and its broadcast address. -/
structure IsSubnet (p : Prefix) : Prop where
  isV4 : p.ip.bitLen = 32
  bits_le : p.bits ≤ 30

/-- The number of addresses of an IPv4 prefix. -/
def size (p : Prefix) : Nat := 2 ^ (32 - p.bits)

/-- The number of the lowest address of an IPv4 prefix. -/
def base (p : Prefix) : Nat :=
  match p.ip with
  | .v4 q => q.toNat / p.size * p.size
  | _ => 0

/-- The network address of an IPv4 prefix. -/
def network (p : Prefix) : Addr := .v4 (BitVec.ofNat 32 p.base)

/-- The broadcast address of an IPv4 prefix. -/
def broadcast (p : Prefix) : Addr := .v4 (BitVec.ofNat 32 (p.base + p.size - 1))

/-- A host address: in the prefix, but neither its network nor its broadcast address. -/
def IsHost (p : Prefix) (a : Addr) : Prop :=
  p.contains a = true ∧ a ≠ p.network ∧ a ≠ p.broadcast

instance (p : Prefix) (a : Addr) : Decidable (p.IsHost a) := inferInstanceAs (Decidable (_ ∧ _))

/-- A loop over consecutive IPv4 addresses that ends at a given one. -/
theorem upFrom_range {cond : Addr → Bool} {fuel x y : Nat} (hy : y < 2 ^ 32)
    (hcond : ∀ z, x ≤ z → z ≤ max x y → (cond (.v4 (BitVec.ofNat 32 z)) = true ↔ z < y))
    (hfuel : y - x ≤ fuel) :
    upFrom cond fuel (.v4 (BitVec.ofNat 32 x)) =
      (List.range' x (y - x)).map fun z => .v4 (BitVec.ofNat 32 z) := by
  induction fuel generalizing x with
  | zero =>
    have hlen : y - x = 0 := by omega
    rw [hlen]
    rfl
  | succ fuel ih =>
    by_cases hxy : x < y
    · have hx : (BitVec.ofNat 32 x).toNat = x := by
        rw [BitVec.toNat_ofNat, Nat.mod_eq_of_lt (by omega)]
      have hnext : Addr.next (.v4 (BitVec.ofNat 32 x)) = .v4 (BitVec.ofNat 32 (x + 1)) := by
        rw [Addr.next_v4 (by rw [hx]; omega), hx]
      have hin := (hcond x (Nat.le_refl x) (Nat.le_max_left x y)).mpr hxy
      have hlen : y - x = (y - (x + 1)) + 1 := by omega
      rw [upFrom, if_pos hin, hnext, ih (fun z hz hzy => hcond z (by omega) (by omega)) (by omega), hlen,
        List.range'_succ, List.map_cons]
    · have hlen : y - x = 0 := by omega
      have hout : ¬cond (.v4 (BitVec.ofNat 32 x)) = true := by
        rw [hcond x (Nat.le_refl x) (Nat.le_max_left x y)]
        exact hxy
      rw [upFrom, if_neg hout, hlen]
      rfl

namespace IsSubnet

variable {p : Prefix} (h : p.IsSubnet)

include h

theorem ip_eq : ∃ q, p.ip = .v4 q := by
  have hb := h.isV4
  cases hip : p.ip with
  | zero => simp [hip, Addr.bitLen] at hb
  | v4 q => exact ⟨q, rfl⟩
  | v6 q z => simp [hip, Addr.bitLen] at hb

theorem four_le_size : 4 ≤ p.size := by
  have hle : 2 ≤ 32 - p.bits := by
    have := h.bits_le
    omega
  calc 4 = 2 ^ 2 := rfl
    _ ≤ 2 ^ (32 - p.bits) := Nat.pow_le_pow_right (by decide) hle

/-- The addresses of the prefix are numbers of 32 bits. -/
theorem base_add_size_le : p.base + p.size ≤ 2 ^ 32 := by
  obtain ⟨q, hq⟩ := h.ip_eq
  have hsplit : 2 ^ p.bits * p.size = 2 ^ 32 := by
    rw [size, ← Nat.pow_add]
    congr 1
    have := h.bits_le
    omega
  have hlt : q.toNat / p.size < 2 ^ p.bits := by
    rw [Nat.div_lt_iff_lt_mul (by have := h.four_le_size; omega), hsplit]
    exact q.isLt
  calc p.base + p.size = (q.toNat / p.size + 1) * p.size := by simp only [base, hq]; ring
    _ ≤ 2 ^ p.bits * p.size := Nat.mul_le_mul_right _ hlt
    _ = 2 ^ 32 := hsplit

/-- The bit test of `Contains` is membership in an interval. -/
theorem contains_v4 (b : BitVec 32) :
    p.contains (.v4 b) = true ↔ p.base ≤ b.toNat ∧ b.toNat < p.base + p.size := by
  obtain ⟨q, hq⟩ := h.ip_eq
  have hbits : p.contains (.v4 b) = true ↔ b >>> (32 - p.bits) = q >>> (32 - p.bits) := by
    simp only [contains, hq, beq_iff_eq, BitVec.ushiftRight_xor_distrib]
    exact BitVec.xor_eq_zero_iff
  have hdiv : b >>> (32 - p.bits) = q >>> (32 - p.bits) ↔
      b.toNat / p.size = q.toNat / p.size := by
    rw [← BitVec.toNat_inj, BitVec.toNat_ushiftRight, BitVec.toNat_ushiftRight,
      Nat.shiftRight_eq_div_pow, Nat.shiftRight_eq_div_pow, size]
  rw [hbits, hdiv, Nat.div_eq_iff (by have := h.four_le_size; omega)]
  simp only [base, hq]
  have := h.four_le_size
  omega

theorem masked_ip : p.masked.ip = p.network := by
  obtain ⟨q, hq⟩ := h.ip_eq
  obtain ⟨ip, n, hfits, hzone⟩ := p
  subst hq
  simp only [masked, network, base, size]
  congr 1
  apply BitVec.eq_of_toNat_eq
  rw [BitVec.toNat_shiftLeft, BitVec.toNat_ushiftRight, BitVec.toNat_ofNat, Nat.shiftLeft_eq,
    Nat.shiftRight_eq_div_pow]

/-- The loop from an address of the prefix visits every address up to the broadcast address. -/
theorem upFrom_eq (fuel x : Nat) (hlo : p.base ≤ x) (hhi : x < p.base + p.size)
    (hfuel : p.base + p.size - 1 - x ≤ fuel) :
    upFrom (fun a => p.contains a.next) fuel (.v4 (BitVec.ofNat 32 x)) =
      (List.range' x (p.base + p.size - 1 - x)).map fun y => .v4 (BitVec.ofNat 32 y) := by
  have hmax := h.base_add_size_le
  refine upFrom_range (by omega) (fun z hz hzb => ?_) hfuel
  have hzb : z ≤ p.base + p.size - 1 := by omega
  have hval : (BitVec.ofNat 32 z).toNat = z := by
    rw [BitVec.toNat_ofNat, Nat.mod_eq_of_lt (by omega)]
  by_cases hwrap : z + 1 < 2 ^ 32
  · rw [Addr.next_v4 (by rw [hval]; exact hwrap), hval, h.contains_v4, BitVec.toNat_ofNat,
      Nat.mod_eq_of_lt hwrap]
    omega
  · -- the last address of all has no successor
    have hzero : BitVec.ofNat 32 z + 1 = 0 := by
      apply BitVec.eq_of_toNat_eq
      rw [BitVec.toNat_add, hval]
      have : z = 2 ^ 32 - 1 := by omega
      subst this
      rfl
    obtain ⟨q, hq⟩ := h.ip_eq
    rw [Addr.next, if_pos hzero]
    simp only [contains, hq, Bool.false_eq_true, false_iff]
    omega

/-- The first host address follows the network address. -/
theorem next_masked_ip : p.masked.ip.next = .v4 (BitVec.ofNat 32 (p.base + 1)) := by
  have hmax := h.base_add_size_le
  have hsize := h.four_le_size
  have hbase : (BitVec.ofNat 32 p.base).toNat = p.base := by
    rw [BitVec.toNat_ofNat, Nat.mod_eq_of_lt (by omega)]
  rw [h.masked_ip, network, Addr.next_v4 (by rw [hbase]; omega), hbase]

/-- The loop over the host addresses visits all of them, in ascending order. -/
theorem hosts_eq :
    p.hosts = (List.range' (p.base + 1) (p.size - 2)).map fun x => .v4 (BitVec.ofNat 32 x) := by
  have hmax := h.base_add_size_le
  have hsize := h.four_le_size
  have hlen : p.base + p.size - 1 - (p.base + 1) = p.size - 2 := by omega
  rw [hosts, h.isV4, h.next_masked_ip, h.upFrom_eq _ _ (by omega) (by omega) (by omega), hlen]

theorem mem_hosts {a : Addr} : a ∈ p.hosts ↔ p.IsHost a := by
  have hmax := h.base_add_size_le
  have hsize := h.four_le_size
  obtain ⟨q, hq⟩ := h.ip_eq
  rw [h.hosts_eq, List.mem_map]
  constructor
  · rintro ⟨x, hx, rfl⟩
    rw [List.mem_range'_1] at hx
    have hval {y : Nat} (hy : y < 2 ^ 32) : (BitVec.ofNat 32 y).toNat = y := by
      rw [BitVec.toNat_ofNat, Nat.mod_eq_of_lt hy]
    refine ⟨?_, fun he => ?_, fun he => ?_⟩
    · rw [h.contains_v4, hval (by omega)]
      omega
    · have := congrArg BitVec.toNat (Addr.v4.inj he)
      rw [hval (by omega), hval (by omega)] at this
      omega
    · have := congrArg BitVec.toNat (Addr.v4.inj he)
      rw [hval (by omega), hval (by omega)] at this
      omega
  · rintro ⟨hc, hnet, hbc⟩
    cases a with
    | zero => simp [contains, hq] at hc
    | v6 b z => simp [contains, hq] at hc
    | v4 b =>
      rw [h.contains_v4] at hc
      refine ⟨b.toNat, ?_, by rw [BitVec.ofNat_toNat, BitVec.setWidth_eq]⟩
      have hne {y : Nat} (hy : Addr.v4 b ≠ .v4 (BitVec.ofNat 32 y)) : b.toNat ≠ y := by
        intro he
        apply hy
        rw [← he, BitVec.ofNat_toNat, BitVec.setWidth_eq]
      have h₁ := hne hnet
      have h₂ := hne hbc
      rw [List.mem_range'_1]
      omega

/-- Hosts come in ascending order. -/
theorem hosts_sorted : p.hosts.Pairwise fun a b => a.compare b = .lt := by
  have hmax := h.base_add_size_le
  have hsize := h.four_le_size
  rw [h.hosts_eq, List.pairwise_map]
  refine List.Pairwise.imp_of_mem ?_ List.pairwise_lt_range'
  intro x y hx hy hlt
  rw [List.mem_range'_1] at hx hy
  simp only [Addr.compare, BitVec.toNat_ofNat, compare_lt_iff_lt]
  rw [Nat.mod_eq_of_lt (by omega), Nat.mod_eq_of_lt (by omega)]
  exact hlt

end IsSubnet

end Prefix

end Veld.Netip
