import Veld.Core.Netip

/-!
# Overlapping prefixes

`Overlaps`, `PrefixFrom` and the address classes of `net/netip` that a route is
checked for. Two prefixes overlap exactly when they belong to one address family
and agree in the leading bits of the shorter one, so that masking a prefix does
not change what it overlaps.
-/

namespace Veld.Netip

namespace Addr

/-- An IPv4 address; the mapped form does not count. -/
def is4 : Addr → Bool
  | v4 _ => true
  | _ => false

def withoutZone : Addr → Addr
  | v6 b _ => v6 b ""
  | a => a

@[simp] theorem zone_withoutZone (a : Addr) : a.withoutZone.zone = "" := by
  cases a <;> rfl

/-- `127.0.0.0/8`, also in its mapped form, or `::1`. -/
def isLoopback (a : Addr) : Bool :=
  match a.unmap with
  | zero => false
  | v4 b => b.extractLsb' 24 8 == 127#8
  | v6 b _ => b == 1#128

/-- `169.254.0.0/16`, also in its mapped form, or `fe80::/10`. -/
def isLinkLocalUnicast (a : Addr) : Bool :=
  match a.unmap with
  | zero => false
  | v4 b => b.extractLsb' 16 16 == 0xa9fe#16
  | v6 b _ => b.extractLsb' 118 10 == 0x3fa#10

/-- `ffx1::/16` for any flags `x`. -/
def isInterfaceLocalMulticast (a : Addr) : Bool :=
  match a.unmap with
  | v6 b _ => b.extractLsb' 120 8 == 0xff#8 && b.extractLsb' 112 4 == 1#4
  | _ => false

/-- The address of `ip.Prefix(n)`: only the leading bits are left, and no zone. -/
def leading (n : Nat) : Addr → Addr
  | zero => zero
  | v4 b => v4 ((b >>> (32 - n)) <<< (32 - n))
  | v6 b _ => v6 ((b >>> (128 - n)) <<< (128 - n)) ""

end Addr

/-- Clearing fewer low bits first makes no difference. -/
theorem clear_low_of_le {w : Nat} (b : BitVec w) {m n : Nat} (h : m ≤ n) :
    ((b >>> m) <<< m >>> n) <<< n = (b >>> n) <<< n := by
  apply BitVec.eq_of_getLsbD_eq
  intro i hi
  simp only [BitVec.getLsbD_shiftLeft, BitVec.getLsbD_ushiftRight]
  by_cases hn : i < n
  · simp [hn]
  · have hbit : n + (i - n) = i := by omega
    have hbit' : m + (i - m) = i := by omega
    have hm : ¬i < m := by omega
    simp [hn, hbit, hbit', hm, hi]

theorem ushiftRight_clear_low {w : Nat} (b : BitVec w) (n : Nat) :
    ((b >>> n) <<< n) >>> n = b >>> n := by
  apply BitVec.eq_of_getLsbD_eq
  intro i hi
  simp only [BitVec.getLsbD_shiftLeft, BitVec.getLsbD_ushiftRight]
  by_cases hw : n + i < w
  · simp [hw]
  · simp [hw, BitVec.getLsbD_of_ge b (n + i) (not_lt.mp hw)]

namespace Prefix

/-- `PrefixFrom`; a length that does not fit gives an invalid prefix. -/
def prefixFrom (a : Addr) (bits : Nat) : Prefix :=
  if h : bits ≤ a.withoutZone.bitLen then ⟨a.withoutZone, bits, h, a.zone_withoutZone⟩ else zero

/-- `Overlaps`. -/
def overlaps (p o : Prefix) : Bool :=
  if !p.isValid || !o.isValid then false
  else if p = o then true
  else if p.ip.is4 ≠ o.ip.is4 then false
  else if min p.bits o.bits = 0 then true
  else p.ip.leading (min p.bits o.bits) = o.ip.leading (min p.bits o.bits)

@[simp] theorem bits_masked (p : Prefix) : p.masked.bits = p.bits := by
  obtain ⟨_ | _ | _, n, h, hz⟩ := p <;> rfl

@[simp] theorem isValid_masked (p : Prefix) : p.masked.isValid = p.isValid := by
  obtain ⟨_ | _ | _, n, h, hz⟩ := p <;> rfl

@[simp] theorem is4_masked (p : Prefix) : p.masked.ip.is4 = p.ip.is4 := by
  obtain ⟨_ | _ | _, n, h, hz⟩ := p <;> rfl

theorem leading_masked (p : Prefix) {n : Nat} (h : n ≤ p.bits) :
    p.masked.ip.leading n = p.ip.leading n := by
  obtain ⟨_ | b | ⟨b, z⟩, m, hm, hz⟩ := p
  · rfl
  · simp only [masked, Addr.leading]
    rw [clear_low_of_le b (Nat.sub_le_sub_left h 32)]
  · simp only [masked, Addr.leading]
    rw [clear_low_of_le b (Nat.sub_le_sub_left h 128)]

/-- Masking a prefix does not change what it contains. -/
@[simp] theorem contains_masked (p : Prefix) (a : Addr) : p.masked.contains a = p.contains a := by
  obtain ⟨_ | b | ⟨b, z⟩, n, h, hz⟩ := p
  · rfl
  · cases a with
    | v4 c => simp only [masked, contains, BitVec.ushiftRight_xor_distrib, ushiftRight_clear_low]
    | zero => rfl
    | v6 c zone => rfl
  · cases a with
    | v6 c zone =>
      simp only [masked, contains, BitVec.ushiftRight_xor_distrib, ushiftRight_clear_low]
    | zero => rfl
    | v4 c => rfl

/-- Within one family there is one address without leading bits. -/
theorem leading_zero_eq {a b : Addr} (ha : a.isValid = true) (hb : b.isValid = true)
    (h : a.is4 = b.is4) : a.leading 0 = b.leading 0 := by
  cases a with
  | zero => cases ha
  | v4 x =>
    cases b with
    | zero => cases hb
    | v4 y => simp [Addr.leading]
    | v6 y z => cases h
  | v6 x z =>
    cases b with
    | zero => cases hb
    | v4 y => cases h
    | v6 y w => simp [Addr.leading]

theorem overlaps_iff {p o : Prefix} :
    p.overlaps o = true ↔ p.isValid = true ∧ o.isValid = true ∧ p.ip.is4 = o.ip.is4 ∧
      p.ip.leading (min p.bits o.bits) = o.ip.leading (min p.bits o.bits) := by
  unfold overlaps
  by_cases hp : p.isValid = true
  · by_cases ho : o.isValid = true
    · simp only [hp, ho, Bool.not_true, Bool.or_self, Bool.false_eq_true, ite_false, true_and]
      by_cases he : p = o
      · subst he
        simp
      · by_cases hf : p.ip.is4 = o.ip.is4
        · by_cases hz : min p.bits o.bits = 0
          · simp only [he, hf, hz, ite_true, ite_false, ne_eq, not_true_eq_false, true_and, true_iff]
            exact leading_zero_eq hp ho hf
          · simp [he, hf, hz]
        · simp [he, hf]
    · simp [ho]
  · simp [hp]

/-- A prefix overlaps what its network overlaps. -/
theorem overlaps_masked (p o : Prefix) : p.masked.overlaps o = p.overlaps o := by
  rw [Bool.eq_iff_iff, overlaps_iff, overlaps_iff, isValid_masked, is4_masked, bits_masked,
    leading_masked p (min_le_left _ _)]

end Prefix

end Veld.Netip
